import UServer.Net.TcpConnect

/-! Is DE_CONNECT delivered for completed connections alone? A report may be older than
the Connect that runs in the same batch; the invariant says when it still holds. -/
namespace UServer.Net
open Library

/-- The record since the last report. -/
def sinceReport (trace : List Event) : List Event :=
  trace.takeWhile fun | .reported _ => false | _ => true

theorem sinceReport_append {evs : List Event} (h : ∀ ks, .reported ks ∉ evs) (trace : List Event) :
    sinceReport (evs ++ trace) = evs ++ sinceReport trace := by
  refine List.takeWhile_append_of_pos fun e he => ?_
  cases e with
  | reported ks => exact absurd he (h ks)
  | _ => rfl

theorem sinceReport_reported {recent : List Event} (h : ∀ ks, .reported ks ∉ recent) (ks : List Key)
    (before : List Event) : sinceReport (recent ++ .reported ks :: before) = recent := by
  rw [sinceReport_append h]
  exact List.append_nil recent

/-- Every OnEvent with DE_CONNECT was caused by a report that is younger than the last
Connect on its dispatcher that was left in progress. -/
def TimelyConnects (trace : List Event) : Prop :=
  ∀ newer k p ff enabled older, trace = newer ++ .onEvent k p ff enabled :: older → has ff deConnect = true →
    ∃ recent ks before, older = recent ++ .reported ks :: before ∧ (∀ ks', .reported ks' ∉ recent) ∧ k ∈ ks ∧
      .connecting p ∉ recent

/-- No dispatcher is told of a connection that the kernel has not completed. -/
structure NoPrematureConnect (s : NetState) : Prop where
  timely : TimelyConnects s.loop.world.trace
  connected : ∀ p d, s.loop.world.socketAt p = some d → d.state = .connected →
    d.s ≠ invalidSocket ∧ s.tcp d.s = .connected
  signaled : ∀ rest k p ff err handler todo d,
    s.loop.control = .onEvent rest k p ff err handler (deConnect :: todo) → has ff deConnect = true →
      s.loop.world.socketAt p = some d → s.tcp d.s = .connected

/-- Is a writable event for the dispatcher's current registration still ahead in the batch? -/
def NetState.awaits (s : NetState) (p : Ptr) : Bool :=
  match s.loop.control.pending with
  | none => false
  | some rest => rest.any fun ev =>
      has ev.events epollOut && decide (s.loop.world.server.keyByDispatcher p = some ev.key)

/-- A Connect that ends in an error, on a dispatcher whose writable event is still ahead, leaves
nothing in progress; and no idle socket with DE_CONNECT enabled is reported writable. -/
def NetAction.inTime (s : NetState) : NetAction → Bool
  | .loop (.op (.connect p _ sock linger (.error e))) =>
    (s.loop.world.socketAt p).all fun d => !(s.awaits p && d.reachesConnect sock linger) ||
      !isBlockingError e && (!has d.enabledEvents deConnect || decide (s.tcp d.s = .connected))
  | .loop (.report evs) =>
    evs.all fun ev => (s.loop.world.watcher ev.1).all fun d =>
      !(has ev.2 epollOut && has d.enabledEvents deConnect && decide (s.tcp ev.1 = .idle))
  | _ => true

def InTime (s : NetState) (a : NetAction) : Prop := a.inTime s = true

instance (s : NetState) (a : NetAction) : Decidable (InTime s a) :=
  inferInstanceAs (Decidable (a.inTime s = true))

/-- How a dispatcher that is in CS_CONNECTED after a write was before it. -/
theorem Slot.Write.connected_cases {P : Policy} {busy : Prop} {p : Ptr} {x : Option Slot} {evs : List Event}
    {d' : SocketDispatcher} {κ' : Option Key} {y' : Option EpollEntry}
    (h : Write P busy p x evs (some ⟨.socket d',κ',y'⟩)) (hst : d'.state = .connected) :
    P.completes p = true ∨ ∃ d κ y, x = some ⟨.socket d,κ,y⟩ ∧ d.state = .connected ∧
      (d'.s = d.s ∨ d.s = invalidSocket) := by
  generalize hx' : some (Slot.mk (.socket d') κ' y') = x' at h
  have hchange {c : Slot} {f : EventMask → EventMask} (hx' : some (Slot.mk (.socket d') κ' y') = some (c.changeEvents f)) :
      ∃ d κ y, some c = some (Slot.mk (.socket d) κ y) ∧ d.state = .connected ∧ (d'.s = d.s ∨ d.s = invalidSocket) := by
    obtain ⟨d,y,rfl,rfl⟩ := eq_changeEvents (Option.some_inj.mp hx')
    exact ⟨d,κ',y,rfl,hst,.inl rfl⟩
  cases h with
  | same => exact .inr ⟨d',κ',y',hx'.symm,hst,.inl rfl⟩
  | note => exact .inr ⟨d',κ',y',hx'.symm,hst,.inl rfl⟩
  | modify c d d'' hc hs he hb hcon =>
    obtain ⟨D,κ,y⟩ := c
    obtain rfl : D = .socket d := hc
    cases hx'
    exact (hcon hst).symm.imp_right fun hd => ⟨d,_,_,rfl,hd,.inl hs⟩
  | enable c events harm => exact .inr (hchange hx')
  | set c events hk => exact .inr (hchange hx')
  | add c k d hc hk hv ha =>
    obtain ⟨D,κ,y⟩ := c
    obtain rfl : .socket d' = D := congrArg Slot.dispatcher (Option.some_inj.mp hx')
    exact .inr ⟨d',_,_,rfl,hst,.inl rfl⟩
  | retire d k x =>
    cases hx'
    exact .inr ⟨d,_,_,rfl,hst,.inl rfl⟩
  | reset d =>
    cases hx'
    exact .inr ⟨d,_,_,rfl,hst,.inl rfl⟩
  | release d d'' hv hs he hb hcl =>
    cases hx'
    cases hcl.symm.trans hst
  | acquire d d'' hv hs he hb heq =>
    cases hx'
    exact .inr ⟨d,_,_,rfl,heq ▸ hst,.inr hv⟩
  | construct =>
    cases hx'
    simp [SocketDispatcher.new] at hst
  | wrap s soType hs hc => exact .inl hc
  | free => cases hx'
  | remove c k hk hd =>
    obtain ⟨D,κ,y⟩ := c
    obtain rfl : .socket d' = D := congrArg Slot.dispatcher (Option.some_inj.mp hx')
    exact .inr ⟨d',_,_,rfl,hst,.inl rfl⟩
  | update c hd =>
    obtain ⟨D,κ,y⟩ := c
    obtain rfl : .socket d' = D := (congrArg Slot.dispatcher (Option.some_inj.mp hx')).trans (update_dispatcher _)
    exact .inr ⟨d',_,_,rfl,hst,.inl rfl⟩

theorem Slot.Write.connecting_arms {P : Policy} {busy : Prop} {p q : Ptr} {x x' : Option Slot} {evs : List Event}
    (h : Write P busy p x evs x') (hq : .connecting q ∈ evs) : P.arms q deConnect = true := by
  cases h with
  | note x ha =>
    simp only [List.mem_singleton, Event.connecting.injEq] at hq
    rwa [hq]
  | _ => simp at hq

/-- What a run of elementary writes within a policy leaves of registrations, states and record. -/
structure Follows (P : Policy) (w w' : World) : Prop where
  registered : ∀ q d' k y', k ∈ addedKeys w.trace → w'.slotAt q = some ⟨.socket d',some k,y'⟩ →
    ∃ d y, w.slotAt q = some ⟨.socket d,some k,y⟩ ∧ d'.s = d.s ∧ ∀ b, has d'.enabledEvents b = true →
      has d.enabledEvents b = true ∨ ∃ events, P.arms q events = true ∧ has events b = true
  connected : ∀ q d' κ' y', w'.slotAt q = some ⟨.socket d',κ',y'⟩ → d'.state = .connected →
    P.completes q = true ∨ ∃ d κ y, w.slotAt q = some ⟨.socket d,κ,y⟩ ∧ d.state = .connected ∧
      (d'.s = d.s ∨ d.s = invalidSocket)
  trace : ∃ evs, w'.trace = evs ++ w.trace ∧ (∀ e ∈ evs, e.ofLoop = false) ∧
    ∀ q, .connecting q ∈ evs → P.arms q deConnect = true

namespace Follows
variable {P : Policy} {busy : Option Ptr} {p : Ptr} {evs : List Event} {w w' w'' : World}

theorem refl : Follows P w w where
  registered _ d _ y _ hq := ⟨d,y,hq,rfl,fun _ => .inl⟩
  connected _ d κ y hq hst := .inr ⟨d,κ,y,hq,hst,.inl rfl⟩
  trace := ⟨[],rfl,by simp,by simp⟩

theorem of_write (h : Write P busy p evs w w') (hR : Registry w) (hO : Owned w busy)
    (hlt : (addedKeys w.trace).length < 2 ^ 64) : Follows P w w' where
  registered q d' k y' hk hq := by
    rcases h.registered_before hR hO hlt hq with hn | ⟨d,y,hx,hs,he⟩
    · exact absurd hk hn
    · refine ⟨d,y,hx,hs,fun b hb => ?_⟩
      rcases he with he | ⟨rfl,events,ha,-,he⟩
      · exact .inl (he ▸ hb)
      · rw [he, has_or, Bool.or_eq_true] at hb
        exact hb.imp_right fun hb => ⟨events,ha,hb⟩
  connected q d' κ' y' hq hst := by
    by_cases hqp : q = p
    · subst hqp
      have hs := h.slot
      rw [hq] at hs
      exact hs.connected_cases hst
    · rw [h.frame.slotAt_ne hO hqp] at hq
      exact .inr ⟨d',κ',y',hq,hst,.inl rfl⟩
  trace := ⟨evs,h.trace,h.slot.not_ofLoop,fun _ => h.slot.connecting_arms⟩

theorem trans (h : Follows P w w') (h' : Follows P w' w'') : Follows P w w'' where
  registered q d'' k y'' hk hq := by
    obtain ⟨evs,ht,-,-⟩ := h.trace
    have hk' : k ∈ addedKeys w'.trace := by
      rw [ht, addedKeys_append]
      exact List.mem_append_right _ hk
    obtain ⟨d',y',hq',hs',hb'⟩ := h'.registered q d'' k y'' hk' hq
    obtain ⟨d,y,hq,hs,hb⟩ := h.registered q d' k y' hk hq'
    exact ⟨d,y,hq,hs'.trans hs,fun b hbit => (hb' b hbit).elim (hb b) .inr⟩
  connected q d'' κ'' y'' hq hst := by
    rcases h'.connected q d'' κ'' y'' hq hst with hc | ⟨d',κ',y',hq',hst',hs'⟩
    · exact .inl hc
    · rcases h.connected q d' κ' y' hq' hst' with hc | ⟨d,κ,y,hq,hst,hs⟩
      · exact .inl hc
      · refine .inr ⟨d,κ,y,hq,hst,?_⟩
        rcases hs with hs | hs
        · exact hs'.imp (fun h => h.trans hs) hs.symm.trans
        · exact .inr hs
  trace := by
    obtain ⟨evs,ht,hl,ha⟩ := h.trace
    obtain ⟨evs',ht',hl',ha'⟩ := h'.trace
    refine ⟨evs' ++ evs,by rw [ht', ht, List.append_assoc],fun e he => ?_,fun q hq => ?_⟩
    · exact (List.mem_append.mp he).elim (hl' e) (hl e)
    · exact (List.mem_append.mp hq).elim (ha' q) (ha q)

end Follows

theorem Writes.follows {P : Policy} {busy : Option Ptr} {w w' : World} (h : Writes P busy w w') (hO : Owned w busy)
    (hl : Linked w) (hR : Registry w) (hlt : (addedKeys w'.trace).length < 2 ^ 64) : Follows P w w' := by
  induction h with
  | refl => exact .refl
  | tail hw hstep ih =>
    obtain ⟨p,evs,hstep⟩ := hstep
    have hone : Writes P busy _ _ := .single ⟨p,evs,hstep⟩
    have hlt' := lt_of_le_of_lt hone.addedKeys_le hlt
    exact (ih hlt').trans (.of_write hstep (Writes.registry hw hR hlt') (Writes.sound hw hO hl).1 hlt')

/-- What an operation of the run may do: it arms DE_CONNECT for a Connect in progress alone,
and connects a dispatcher by a Connect that succeeds at once alone. -/
def Op.policy (w : World) (o : Op) : Policy where
  direct := false
  adds _ _ := true
  arms q events := !has events deConnect || match o.outcome w q with
    | some (.error e) => isBlockingError e
    | _ => false
  completes q := match o.outcome w q with
    | some (.ok _) => true
    | _ => false

theorem Op.allowed_policy {w : World} {tcp tcp' : Fd → TcpState} {o : Op} (h : o.onTcp w tcp = some tcp') :
    o.allowed (o.policy w) w = true := by
  cases o with
  | createSocket | close | destroy => rfl
  | connect p family sock linger res =>
    simp only [allowed, Option.all_eq_true]
    intro d hd
    simp only [Policy.createsWithin, Policy.connectsWithin, policy, outcome, hd]
    have hrw : has (deRead ||| deWrite) deConnect = false := by decide
    cases hre : d.reachesConnect sock linger with
    | false => simp
    | true =>
      cases res with
      | ok _ => simp [hrw, hre]
      | error e => cases hb : isBlockingError e <;> simp [hre, hb]
  | _ => cases h

namespace World
variable {w w' : World} {p : Ptr} {busy : Option Ptr}

/-- The dispatcher keeps its descriptor. -/
def KeepsFd (p : Ptr) (w w' : World) : Prop :=
  ∀ d, w.socketAt p = some d → ∃ d', w'.socketAt p = some d' ∧ d'.s = d.s

theorem KeepsFd.trans {w'' : World} (h : KeepsFd p w w') (h' : KeepsFd p w' w'') : KeepsFd p w w'' := by
  intro d hd
  obtain ⟨d',hd',hs⟩ := h d hd
  obtain ⟨d'',hd'',hs'⟩ := h' d' hd'
  exact ⟨d'',hd'',hs'.trans hs⟩

theorem keepsFd_of_eq (h : w'.dispatchers = w.dispatchers) : KeepsFd p w w' := by
  intro d hd
  rw [socketAt_eq_some_iff, ← h, ← socketAt_eq_some_iff] at hd
  exact ⟨d,hd,rfl⟩

theorem keepsFd_log (e : Event) : KeepsFd p w (w.log e) := keepsFd_of_eq rfl

theorem keepsFd_modifySocket {f : SocketDispatcher → SocketDispatcher} (hs : ∀ d, (f d).s = d.s) :
    KeepsFd p w (w.modifySocket p f) := fun d hd => ⟨f d,socketAt_modifySocket hd f,hs d⟩

/-- With a fresh descriptor whose SO_LINGER is set, Create succeeds. -/
theorem create_of_ok (hO : Owned w busy) {d : SocketDispatcher} (hd : w.socketAt p = some d) {fd : Fd}
    (hf : (w.close p).freshFd fd = true) (family : Int) (type : SockType) :
    (w.create p family type (.ok fd) none).2 = true := by
  have hnew : (w.close p).freshAnswer (.ok fd) = true := hf
  have hc := socketAt_of_slotAt (physicalCreate_spec (P := .all) hO hd hnew family type).1
  have hv : (created w p d family type (.ok fd)).s ≠ invalidSocket := by
    rw [created_s]
    exact ne_invalidSocket_of_freshFd hf
  have hok : (w.physicalCreate p family type (.ok fd)).2 = true := rfl
  simp only [create, hok, if_true, initializeSocket, hc, if_neg hv]

theorem keepsFd_enableEvents (events : EventMask) : KeepsFd p w (w.enableEvents p events) :=
  fun _ hd => ⟨_,changeEvents_socketAt (w := w.log _) hd _,rfl⟩

theorem keepsFd_finishConnect (res : Except Errno Unit) : KeepsFd p w (w.finishConnect p res).1 := by
  have h : KeepsFd p w ((w.noteErrno res).updateLastError p) :=
    (keepsFd_of_eq (noteErrno_dispatchers res)).trans (keepsFd_modifySocket fun _ => rfl)
  have hst (state : ConnState) : KeepsFd p w (((w.noteErrno res).updateLastError p).setState p state) :=
    h.trans (keepsFd_modifySocket fun _ => rfl)
  unfold finishConnect
  cases res with
  | ok _ => exact (hst .connected).trans (keepsFd_enableEvents _)
  | error e =>
    dsimp only
    split
    · exact ((hst .connecting).trans (keepsFd_log _)).trans (keepsFd_enableEvents _)
    · exact h

end World

/-- What ::connect answered moved the connection of the descriptor that the dispatcher has then. -/
theorem Op.connected_of_outcome {w : World} {busy : Option Ptr} {tcp tcp' : Fd → TcpState} {o : Op} {p : Ptr}
    {u : Unit} (hO : Owned w busy) (hr : w.ready busy o = true) (h : o.onTcp w tcp = some tcp')
    (hout : o.outcome w p = some (.ok u)) {d' : SocketDispatcher} (hd' : (w.exec o).socketAt p = some d') :
    d'.s ≠ invalidSocket ∧ tcp' d'.s = .connected := by
  cases o with
  | connect q family sock linger res =>
    simp only [outcome, Bool.and_eq_true, decide_eq_true_eq, Option.ite_none_right_eq_some, Option.some_inj] at hout
    obtain ⟨⟨rfl,hany⟩,rfl⟩ := hout
    obtain ⟨d,hd,hre⟩ := (Option.any_eq_true _ _).mp hany
    obtain ⟨-,hf⟩ := Bool.and_eq_true_iff.mp hr
    obtain ⟨hst,hre⟩ : d.state = .closed ∧ (d.s ≠ invalidSocket ∨ sock.isOk = true ∧ linger = none) := by
      simpa [SocketDispatcher.reachesConnect] using hre
    change (w.connect q family sock linger (.ok u)).1.socketAt q = some d' at hd'
    simp only [onTcp, hd, hst, ne_eq, not_true, if_false] at h
    simp only [World.connect, hd, hst, World.doConnect, ne_eq, not_true, if_false] at hd'
    by_cases hs : d.s = invalidSocket
    · obtain ⟨hok,rfl⟩ := hre.resolve_left (not_not.mpr hs)
      cases sock with
      | error e => cases hok
      | ok fd =>
        have hf' : (w.close q).freshAnswer (.ok fd) = true := by rwa [World.close_of_invalid hd hs]
        have hc := World.create_socketAt hO hd hf' family .stream none
        simp only [hs, not_true, if_false, Option.isSome_none, Bool.false_eq_true] at h
        obtain ⟨after,hafter,rfl⟩ := Option.map_eq_some_iff.mp h
        simp only [hs, if_true] at hd'
        split at hd'
        · obtain ⟨d'',hd'',hs''⟩ := World.keepsFd_finishConnect (.ok u) _ hc
          cases hd''.symm.trans hd'
          rw [World.created_s] at hs''
          rw [hs'', Function.update_self, TcpState.connect_ok hafter]
          exact ⟨World.ne_invalidSocket_of_freshFd hf,rfl⟩
        · rename_i hno
          exact absurd (World.create_of_ok hO hd hf' family .stream) hno
    · simp only [hs, not_false_eq_true, if_true] at h
      obtain ⟨after,hafter,rfl⟩ := Option.map_eq_some_iff.mp h
      simp only [hs, if_false] at hd'
      obtain ⟨d'',hd'',hs''⟩ := World.keepsFd_finishConnect (.ok u) _ hd
      cases hd''.symm.trans hd'
      rw [hs'', Function.update_self, TcpState.connect_ok hafter]
      exact ⟨hs,rfl⟩
  | _ => cases hout

/-- A descriptor in use is touched by an operation only where ::connect is called on it. -/
theorem Op.onTcp_held {w : World} {busy : Option Ptr} {tcp tcp' : Fd → TcpState} {o : Op} (hO : Owned w busy)
    (hr : w.ready busy o = true) (h : o.onTcp w tcp = some tcp') {q : Ptr} {d : SocketDispatcher} {κ : Option Key}
    {x : Option EpollEntry} (hc : w.slotAt q = some ⟨.socket d,κ,x⟩) (hv : d.s ≠ invalidSocket) :
    tcp' d.s = tcp d.s ∨ ∃ res, o.outcome w q = some res ∧ d.state = .closed ∧
      (tcp d.s).connect res = some (tcp' d.s) := by
  have hopen : w.kernel.isOpen d.s = true := hO.isOpen q _ hc hv
  have hfresh {fd : Fd} (hf : w.freshFd fd = true) (state : TcpState) : Function.update tcp fd state d.s = tcp d.s := by
    refine Function.update_of_ne ?_ _ _
    rintro rfl
    simp [World.freshFd, hopen] at hf
  cases o with
  | createSocket p family type sock linger =>
    obtain ⟨-,hf⟩ := Bool.and_eq_true_iff.mp hr
    simp only [onTcp] at h
    split at h
    · cases sock with
      | ok fd =>
        cases h
        exact .inl (hfresh hf _)
      | error e =>
        cases h
        exact .inl rfl
    · cases h
  | connect p family sock linger res =>
    obtain ⟨hl,hf⟩ := Bool.and_eq_true_iff.mp hr
    obtain ⟨e,he⟩ := World.live_iff.mp hl
    simp only [onTcp, he] at h
    split at h
    · cases h
      exact .inl rfl
    · rename_i hst
      have hst := not_not.mp hst
      split at h
      · rename_i hs
        obtain ⟨after,hafter,rfl⟩ := Option.map_eq_some_iff.mp h
        by_cases hqp : q = p
        · subst hqp
          cases (World.socketAt_of_slotAt hc).symm.trans he
          refine .inr ⟨res,?_,hst,by rw [hafter, Function.update_self]⟩
          simp [outcome, he, SocketDispatcher.reachesConnect, hst, hs]
        · refine .inl (Function.update_of_ne (fun hf => hqp ?_) _ _)
          exact hO.distinct q p _ _ hc (World.slotAt_of_socketAt he) hf hv
      · cases sock with
        | error e =>
          cases h
          exact .inl rfl
        | ok fd =>
          dsimp only at h
          split at h
          · cases h
            exact .inl (hfresh hf _)
          · obtain ⟨after,-,rfl⟩ := Option.map_eq_some_iff.mp h
            exact .inl (hfresh hf _)
  | close | destroy =>
    cases h
    exact .inl rfl
  | _ => cases h

/-- What a writable event that is still ahead says of the dispatcher registered under its key. -/
structure StillTrue (tcp : Fd → TcpState) (trace : List Event) (ev : PendingEvent) (p : Ptr) (d : SocketDispatcher) :
    Prop where
  settled : tcp d.s ≠ .connecting
  idle : tcp d.s = .idle → has d.enabledEvents deConnect = false
  refused : ∀ e h, tcp d.s = .refused e h → has ev.events (epollRdHup ||| epollErr ||| epollHup) = true
  since : .connecting p ∉ sinceReport trace

theorem StillTrue.carry {tcp tcp' : Fd → TcpState} {trace trace' : List Event} {ev : PendingEvent} {p : Ptr}
    {d d' : SocketDispatcher} (h : StillTrue tcp trace ev p d) (htcp : tcp' d'.s = tcp d.s)
    (he : has d'.enabledEvents deConnect = true → has d.enabledEvents deConnect = true)
    (hs : .connecting p ∉ sinceReport trace') : StillTrue tcp' trace' ev p d' where
  settled := by rw [htcp]; exact h.settled
  idle hidle := by
    rw [htcp] at hidle
    have hd := h.idle hidle
    by_contra hc
    rw [he ((Bool.not_eq_false _).mp hc)] at hd
    cases hd
  refused e hne href := h.refused e hne (htcp ▸ href)
  since := hs

/-- Every writable event of the batch still holds for its registration. -/
def PendingTrue (s : NetState) : Prop :=
  ∀ rest, s.loop.control.pending = some rest → ∀ ev ∈ rest, has ev.events epollOut = true → ∀ p d x,
    s.loop.world.slotAt p = some ⟨.socket d,some ev.key,x⟩ → StillTrue s.tcp s.loop.world.trace ev p d

/-- A dispatcher in CS_CONNECTED has a connection that the kernel completed. -/
def ConnectedTrue (s : NetState) : Prop :=
  ∀ p d κ x, s.loop.world.slotAt p = some ⟨.socket d,κ,x⟩ → d.state = .connected →
    d.s ≠ invalidSocket ∧ s.tcp d.s = .connected

/-- An OnEvent that is about to emit DE_CONNECT has a completed connection; no handler has run. -/
def SignalTrue (s : NetState) : Prop :=
  ∀ rest k p ff err handler todo, s.loop.control = .onEvent rest k p ff err handler todo →
    deConnect ∉ todo ∨ todo = onEventStages ∧ handler = false ∧ (has ff deConnect = true →
      ∀ d κ x, s.loop.world.slotAt p = some ⟨.socket d,κ,x⟩ → s.tcp d.s = .connected)

structure ConnectInvariant (s : NetState) : Prop where
  sound : Sound s.loop
  keys : KeysTrusted s.loop
  nodup : ∀ rest, s.loop.control.pending = some rest → (rest.map PendingEvent.key).Nodup
  pending : PendingTrue s
  connected : ConnectedTrue s
  timely : TimelyConnects s.loop.world.trace
  signal : SignalTrue s

theorem TimelyConnects.append {trace : List Event} (h : TimelyConnects trace) (evs : List Event)
    (he : ∀ k p ff enabled, .onEvent k p ff enabled ∉ evs) : TimelyConnects (evs ++ trace) := by
  intro newer k p ff enabled older ht hff
  rcases List.append_eq_append_iff.mp ht with ⟨as,rfl,ht'⟩ | ⟨cs,rfl,ht'⟩
  · exact h as k p ff enabled older ht' hff
  · cases cs with
    | nil => exact h [] k p ff enabled older (by simpa using ht'.symm) hff
    | cons c cs =>
      cases ht'
      exact absurd (List.mem_append_right _ (List.mem_cons_self ..)) (he k p ff enabled)

theorem ConnectInvariant.noPrematureConnect {s : NetState} (hi : ConnectInvariant s) : NoPrematureConnect s where
  timely := hi.timely
  connected p d hd hst := hi.connected p d _ _ (World.slotAt_of_socketAt hd) hst
  signaled rest k p ff err handler todo d hc hff hd := by
    rcases hi.signal rest k p ff err handler _ hc with hn | ⟨-,-,h⟩
    · exact absurd (List.mem_cons_self ..) hn
    · exact h hff d _ _ (World.slotAt_of_socketAt hd)

/-- The kernel ends a connection attempt. -/
theorem ConnectInvariant.settle {s : NetState} {fd : Fd} {state : TcpState} (hi : ConnectInvariant s)
    (hfd : s.tcp fd = .connecting) : ConnectInvariant { s with tcp := Function.update s.tcp fd state } := by
  have hkeep {f : Fd} (hf : s.tcp f ≠ .connecting) : Function.update s.tcp fd state f = s.tcp f := by
    refine Function.update_of_ne ?_ _ _
    rintro rfl
    exact hf hfd
  have hconnected {f : Fd} (hf : s.tcp f = .connected) : Function.update s.tcp fd state f = .connected := by
    rw [hkeep (by rw [hf]; nofun), hf]
  refine ⟨hi.sound,hi.keys,hi.nodup,?_,?_,hi.timely,?_⟩
  · intro rest hr ev hev hout p d x hc
    have h := hi.pending rest hr ev hev hout p d x hc
    exact h.carry (hkeep h.settled) id h.since
  · intro p d κ x hc hst
    exact (hi.connected p d κ x hc hst).imp_right hconnected
  · intro rest k p ff err handler todo hc
    refine (hi.signal rest k p ff err handler todo hc).imp_right fun ⟨ht,hh,h⟩ => ⟨ht,hh,fun hff d κ x hx => ?_⟩
    exact hconnected (h hff d κ x hx)

/-- A timely operation leaves no Connect in progress on a dispatcher whose event is ahead. -/
private theorem inTime_outcome {s : NetState} {o : Op} {p : Ptr} {e : Errno} {d : SocketDispatcher}
    (hin : (NetAction.loop (.op o)).inTime s = true) (hw : s.awaits p = true) (hd : s.loop.world.socketAt p = some d)
    (hout : o.outcome s.loop.world p = some (.error e)) :
    isBlockingError e = false ∧ (has d.enabledEvents deConnect = false ∨ s.tcp d.s = .connected) := by
  cases o with
  | connect q family sock linger res =>
    simp only [Op.outcome, Bool.and_eq_true, decide_eq_true_eq, Option.ite_none_right_eq_some, Option.some_inj] at hout
    obtain ⟨⟨rfl,hany⟩,rfl⟩ := hout
    simp only [NetAction.inTime, hd, Option.all_some, hw] at hin
    simp only [hd, Option.any_some] at hany
    simpa [hany] using hin
  | _ => cases hout

private theorem arms_inTime {s : NetState} {o : Op} {p : Ptr} {d : SocketDispatcher}
    (hin : (NetAction.loop (.op o)).inTime s = true) (hw : s.awaits p = true) (hd : s.loop.world.socketAt p = some d)
    {events : EventMask} (ha : (o.policy s.loop.world).arms p events = true) : has events deConnect = false := by
  simp only [Op.policy, Bool.or_eq_true, Bool.not_eq_true'] at ha
  refine ha.resolve_right fun h => ?_
  split at h
  · rename_i e hout
    rw [(inTime_outcome hin hw hd hout).1] at h
    cases h
  · cases h

theorem NetState.awaits_of_mem {s : NetState} {rest : List PendingEvent} (hr : s.loop.control.pending = some rest)
    {ev : PendingEvent} (hev : ev ∈ rest) (hout : has ev.events epollOut = true) {p : Ptr} {c : Slot}
    (hc : s.loop.world.slotAt p = some c) (hk : c.key = some ev.key) : s.awaits p = true := by
  have hkey := (World.slotAt_eq_some_iff.mp hc).2.1.trans hk
  simp only [awaits, hr, List.any_eq_true, Bool.and_eq_true, decide_eq_true_eq]
  exact ⟨ev,hev,hout,hkey⟩

theorem ConnectInvariant.op {s : NetState} {o : Op} {tcp' : Fd → TcpState} (hi : ConnectInvariant s)
    (hcan : s.loop.control.canCall = true) (hr : s.loop.world.ready s.loop.control.busy o = true)
    (hto : o.onTcp s.loop.world s.tcp = some tcp') (hin : (NetAction.loop (.op o)).inTime s = true)
    (hf : Follows (o.policy s.loop.world) s.loop.world (s.loop.world.exec o))
    (hsound : Sound ⟨s.loop.world.exec o,s.loop.control⟩) (hkeys : KeysTrusted ⟨s.loop.world.exec o,s.loop.control⟩) :
    ConnectInvariant ⟨⟨s.loop.world.exec o,s.loop.control⟩,tcp'⟩ := by
  obtain ⟨evs,ht,hloop,hconn⟩ := hf.trace
  have hO := hi.sound.owned
  refine ⟨hsound,hkeys,hi.nodup,?_,?_,?_,?_⟩
  · intro rest hrest ev hev hout p d' y' hc'
    obtain ⟨d,y,hc,hs,hen⟩ := hf.registered p d' ev.key y' (hi.keys.pending_added hrest hev) hc'
    have hd := World.socketAt_of_slotAt hc
    have hw := NetState.awaits_of_mem (s := s) hrest hev hout hc rfl
    have hold := hi.pending rest hrest ev hev hout p d y hc
    have hv : d.s ≠ invalidSocket := (hO.ok p _ hc).valid ev.key rfl
    have harm : has d'.enabledEvents deConnect = true → has d.enabledEvents deConnect = true := fun h => by
      rcases hen deConnect h with h | ⟨events,ha,hb⟩
      · exact h
      · cases hb.symm.trans (arms_inTime hin hw hd ha)
    have hsince : .connecting p ∉ sinceReport (s.loop.world.exec o).trace := by
      intro hm
      rw [ht, sinceReport_append fun ks hm => by cases hloop _ hm] at hm
      rcases List.mem_append.mp hm with hm | hm
      · exact absurd (arms_inTime hin hw hd (hconn p hm)) (by decide)
      · exact hold.since hm
    rcases Op.onTcp_held hO hr hto hc hv with htcp | ⟨res,hres,hst,htcp⟩
    · exact hold.carry ((congrArg tcp' hs).trans htcp) harm hsince
    · cases res with
      | ok u =>
        have hnow := TcpState.connect_ok htcp
        rw [← hs] at hnow
        exact ⟨by simp [hnow],by simp [hnow],by simp [hnow],hsince⟩
      | error e =>
        obtain ⟨hb,hen⟩ := inTime_outcome hin hw hd hres
        rcases TcpState.connect_error hb htcp with htcp | ⟨⟨e',h',hold'⟩,hnow⟩
        · exact hold.carry ((congrArg tcp' hs).trans htcp) harm hsince
        · have hen := hen.resolve_right (by simp [hold'])
          rw [← hs] at hnow
          refine ⟨by simp [hnow],fun _ => ?_,by simp [hnow],hsince⟩
          by_contra h
          cases hen.symm.trans (harm ((Bool.not_eq_false _).mp h))
  · intro p d' κ' y' hc' hst'
    rcases hf.connected p d' κ' y' hc' hst' with hcom | ⟨d,κ,y,hc,hst,hs⟩
    · simp only [Op.policy] at hcom
      split at hcom
      · rename_i hres
        exact Op.connected_of_outcome hO hr hto hres (World.socketAt_of_slotAt hc')
      · cases hcom
    · obtain ⟨hv,htcp⟩ := hi.connected p d κ y hc hst
      have hs := hs.resolve_right hv
      rcases Op.onTcp_held hO hr hto hc hv with h | ⟨-,-,hclosed,-⟩
      · exact ⟨fun h => hv (hs.symm.trans h),(congrArg tcp' hs).trans (h.trans htcp)⟩
      · cases hst.symm.trans hclosed
  · rw [ht]
    exact hi.timely.append _ fun k p ff enabled hm => by cases hloop _ hm
  · intro rest k p ff err handler todo hc
    refine (hi.signal rest k p ff err handler todo hc).imp_right fun h => ?_
    obtain ⟨-,hh,-⟩ := h
    have hc' : s.loop.control = .onEvent rest k p ff err handler todo := hc
    rw [hc'] at hcan
    cases hh.symm.trans hcan

/-- A step of the loop itself, which neither takes a report nor arms anything. -/
private theorem ConnectInvariant.of_turn {s : NetState} {loop : LoopState} {tcp' : Fd → TcpState} {evs : List Event}
    (hi : ConnectInvariant s) (hsound : Sound loop) (hkeys : KeysTrusted loop)
    (hpend : ∀ rest', loop.control.pending = some rest' → ∃ rest, s.loop.control.pending = some rest ∧
      rest'.Sublist rest)
    (hslot : ∀ q d' κ y', loop.world.slotAt q = some ⟨.socket d',κ,y'⟩ → ∃ d y,
      s.loop.world.slotAt q = some ⟨.socket d,κ,y⟩ ∧ d'.s = d.s ∧
      (has d'.enabledEvents deConnect = true → has d.enabledEvents deConnect = true) ∧
      (d'.state = .connected → d.state = .connected ∨ d.s ≠ invalidSocket ∧ tcp' d.s = .connected))
    (ht : loop.world.trace = evs ++ s.loop.world.trace) (hno : ∀ ks p, .reported ks ∉ evs ∧ .connecting p ∉ evs)
    (hkeep : ∀ fd, s.tcp fd = .connected → tcp' fd = .connected)
    (hsame : ∀ rest', loop.control.pending = some rest' → ∀ ev ∈ rest', ∀ p d y,
      s.loop.world.slotAt p = some ⟨.socket d,some ev.key,y⟩ → tcp' d.s = s.tcp d.s)
    (htimely : TimelyConnects loop.world.trace) (hsignal : SignalTrue ⟨loop,tcp'⟩) : ConnectInvariant ⟨loop,tcp'⟩ := by
  refine ⟨hsound,hkeys,fun rest' hr => ?_,?_,?_,htimely,hsignal⟩
  · obtain ⟨rest,hrest,hsub⟩ := hpend rest' hr
    exact (hi.nodup rest hrest).sublist (hsub.map _)
  · intro rest' hr ev hev hout p d' y' hc'
    obtain ⟨rest,hrest,hsub⟩ := hpend rest' hr
    obtain ⟨d,y,hc,hs,hen,-⟩ := hslot p d' _ y' hc'
    have hold := hi.pending rest hrest ev (hsub.subset hev) hout p d y hc
    refine hold.carry ((congrArg tcp' hs).trans (hsame rest' hr ev hev p d y hc)) hen fun hm => ?_
    have hm : .connecting p ∈ sinceReport loop.world.trace := hm
    rw [ht, sinceReport_append fun ks => (hno ks p).1] at hm
    exact (List.mem_append.mp hm).elim (hno [] p).2 hold.since
  · intro p d' κ y' hc' hst'
    obtain ⟨d,y,hc,hs,-,hst⟩ := hslot p d' κ y' hc'
    suffices h : d.s ≠ invalidSocket ∧ tcp' d.s = .connected from
      ⟨fun hv => h.1 (hs.symm.trans hv),(congrArg tcp' hs).trans h.2⟩
    rcases hst hst' with hst | hst
    · exact (hi.connected p d κ y hc hst).imp_right (hkeep d.s)
    · exact hst

/-- Reading SO_ERROR changes the connection of the event's dispatcher alone, and only a refused one. -/
private theorem next_tcp {w : World} {tcp tcp' : Fd → TcpState} {ev : PendingEvent} {rest : List PendingEvent}
    {so : Except Errno Errno} {peek : Except Errno Nat}
    (h : (Action.next so peek).onTcp ⟨w,.batch (ev :: rest)⟩ tcp = some tcp') :
    tcp' = tcp ∨ ∃ p d e h, w.server.dispatcherByKey ev.key = some p ∧ w.socketAt p = some d ∧
      tcp d.s = .refused e h ∧ tcp' = Function.update tcp d.s .idle := by
  simp only [Action.onTcp] at h
  split at h
  · exact .inl (Option.some_inj.mp h).symm
  · rename_i d hd
    unfold errorAsked at hd
    split at hd
    · obtain ⟨p,hp,hd⟩ := Option.bind_eq_some_iff.mp hd
      obtain ⟨after,hafter,rfl⟩ := Option.map_eq_some_iff.mp h
      have hself : after = tcp d.s → Function.update tcp d.s after = tcp := fun h =>
        Function.update_eq_self_iff.mpr h
      cases hstate : tcp d.s with
      | refused e he =>
        rw [hstate] at hafter
        simp only [TcpState.takeError, Option.ite_none_right_eq_some, Option.some_inj] at hafter
        exact .inr ⟨p,d,e,he,hp,hd,hstate,by rw [hafter.2]⟩
      | connected =>
        rw [hstate] at hafter
        exact .inl (hself ((Option.some_inj.mp hafter).symm.trans hstate.symm))
      | idle | connecting =>
        rw [hstate] at hafter
        simp only [TcpState.takeError, Option.ite_none_right_eq_some, Option.some_inj] at hafter
        exact .inl (hself (hafter.2.symm.trans hstate.symm))
    · cases hd

section Next
variable {w : World} {tcp tcp' : Fd → TcpState} {ev : PendingEvent} {rest : List PendingEvent}
  {so : Except Errno Errno} {peek : Except Errno Nat}

private theorem next_keep (h : (Action.next so peek).onTcp ⟨w,.batch (ev :: rest)⟩ tcp = some tcp') (fd : Fd)
    (hfd : tcp fd = .connected) : tcp' fd = .connected := by
  rcases next_tcp h with rfl | ⟨p,d,e,he,-,-,href,rfl⟩
  · exact hfd
  · have hne : fd ≠ d.s := by
      rintro rfl
      cases href.symm.trans hfd
    rw [Function.update_of_ne hne, hfd]

/-- The dispatchers of the events behind it are others. -/
private theorem next_same (hi : ConnectInvariant ⟨⟨w,.batch (ev :: rest)⟩,tcp⟩)
    (h : (Action.next so peek).onTcp ⟨w,.batch (ev :: rest)⟩ tcp = some tcp') :
    ∀ ev' ∈ rest, ∀ p d y, w.slotAt p = some ⟨.socket d,some ev'.key,y⟩ → tcp' d.s = tcp d.s := by
  intro ev' hev' p d y hc
  rcases next_tcp h with rfl | ⟨q,e,_,_,hq,he,-,rfl⟩
  · rfl
  · have hO := hi.sound.owned
    have hkq := hi.sound.linked _ _ hq
    have hkp := (World.slotAt_eq_some_iff.mp hc).2.1
    refine Function.update_of_ne (fun hs => ?_) _ _
    have hpq := hO.distinct p q _ _ hc (World.slotAt_of_socketAt he) hs ((hO.ok p _ hc).valid _ rfl)
    rw [hpq, hkq] at hkp
    have hnd := hi.nodup _ rfl
    rw [List.map_cons, List.nodup_cons, Option.some_inj.mp hkp] at hnd
    exact hnd.1 (List.mem_map_of_mem hev')

end Next

/-- The second half of ProcessEvents adds DE_CONNECT to a mask without it. -/
private theorem connect_of_read {read : EventMask} {writeable connect : Bool} {errcode : Errno}
    (hread : has read deConnect = false)
    (h : has (if errcode ≠ 0 then (if writeable = true then if connect = true then
        if errcode = 0 then read ||| deConnect else read else read ||| deWrite else read) ||| deClose
      else if writeable = true then if connect = true then
        if errcode = 0 then read ||| deConnect else read else read ||| deWrite else read) deConnect = true) :
    writeable = true ∧ connect = true ∧ errcode = 0 := by
  have hclose : has deClose deConnect = false := by decide
  have hwrite : has deWrite deConnect = false := by decide
  by_cases he : errcode = 0
  · cases writeable <;> cases connect <;> simp [he, has_or, hread, hwrite] at h ⊢
  · cases writeable <;> cases connect <;> simp [he, has_or, hread, hclose, hwrite] at h

/-- DE_CONNECT comes from a writable event without an error, for a dispatcher that enables it. -/
theorem connect_of_processEvents {d : SocketDispatcher} {readable writeable errorEvent checkError : Bool}
    {so : Except Errno Errno} {peek : Except Errno Nat} {ff : EventMask} {err : Errno}
    (h : processEvents (.socket d) readable writeable errorEvent checkError so peek = (ff,err))
    (hff : has ff deConnect = true) :
    writeable = true ∧ has d.enabledEvents deConnect = true ∧ pendingError errorEvent checkError so = 0 := by
  obtain ⟨rfl,-⟩ := Prod.mk.inj h
  refine connect_of_read ?_ hff
  split
  · split
    · decide
    · split <;> decide
  · decide

/-- DE_CONNECT is delivered for a connection that the kernel has completed. -/
private theorem connected_at_start {w : World} {tcp tcp' : Fd → TcpState} {ev : PendingEvent} {rest : List PendingEvent}
    {so : Except Errno Errno} {peek : Except Errno Nat} {p : Ptr} {d : SocketDispatcher} {x : Option EpollEntry}
    {ff : EventMask} {err : Errno} (hi : ConnectInvariant ⟨⟨w,.batch (ev :: rest)⟩,tcp⟩)
    (h : (Action.next so peek).onTcp ⟨w,.batch (ev :: rest)⟩ tcp = some tcp')
    (hp : w.server.dispatcherByKey ev.key = some p) (hc : w.slotAt p = some ⟨.socket d,some ev.key,x⟩)
    (hff : processEvents (.socket d) (has ev.events (epollIn ||| epollPri)) (has ev.events epollOut)
      (has ev.events (epollRdHup ||| epollErr ||| epollHup)) (has ev.events (epollRdHup ||| epollErr ||| epollHup))
      so peek = (ff,err)) (hcon : has ff deConnect = true) :
    tcp' d.s = .connected ∧ .connecting p ∉ sinceReport w.trace := by
  obtain ⟨hout,hen,herr⟩ := connect_of_processEvents hff hcon
  have hold := hi.pending _ rfl ev (List.mem_cons_self ..) hout p d x hc
  refine ⟨next_keep h _ ?_,hold.since⟩
  cases hstate : tcp d.s with
  | connected => rfl
  | connecting => exact absurd hstate hold.settled
  | idle => cases (hold.idle hstate).symm.trans hen
  | refused e he =>
    have hbits := hold.refused e he hstate
    have hasked : errorAsked w ev = some d := by
      simp [errorAsked, hbits, hp, World.socketAt_of_slotAt hc]
    simp only [Action.onTcp, hasked, hstate, TcpState.takeError] at h
    split at h
    · rename_i hso
      rw [hbits, hso] at herr
      exact absurd herr he
    · cases h

/-- After a conditional of OnEvent the one for DE_CONNECT is behind. -/
private theorem signalTrue_pop {w w' : World} {tcp : Fd → TcpState} {rest : List PendingEvent} {key : Key} {p : Ptr}
    {ff : EventMask} {err : Errno} {handler handler' : Bool} {signal : EventMask} {todo : List EventMask}
    (h : SignalTrue ⟨⟨w,.onEvent rest key p ff err handler (signal :: todo)⟩,tcp⟩) :
    SignalTrue ⟨⟨w',.onEvent rest key p ff err handler' todo⟩,tcp⟩ := by
  intro r k q ff' err' handler'' todo' hc
  cases hc
  rcases h _ _ _ _ _ _ _ rfl with hn | ⟨ht,-,-⟩
  · exact .inl fun hm => hn (List.mem_cons_of_mem _ hm)
  · cases ht
    exact .inl (by decide)

/-- What a timely report says holds. -/
private theorem ConnectInvariant.report {w : World} {tcp : Fd → TcpState} {evs : List (Fd × EpollMask)}
    (hi : ConnectInvariant ⟨⟨w,.idle⟩,tcp⟩)
    (hsound : Sound ⟨w.log (.reported ((evs.filterMap (reportOne w.kernel)).map PendingEvent.key)),
      .batch (evs.filterMap (reportOne w.kernel))⟩)
    (hkeys : KeysTrusted ⟨w.log (.reported ((evs.filterMap (reportOne w.kernel)).map PendingEvent.key)),
      .batch (evs.filterMap (reportOne w.kernel))⟩)
    (hr : reportReady w.kernel evs = true) (hrep : ∀ ev ∈ evs, (tcp ev.1).reports ev.2 = true)
    (hin : (NetAction.loop (.report evs)).inTime ⟨⟨w,.idle⟩,tcp⟩ = true) :
    ConnectInvariant ⟨⟨w.log (.reported ((evs.filterMap (reportOne w.kernel)).map PendingEvent.key)),
      .batch (evs.filterMap (reportOne w.kernel))⟩,tcp⟩ := by
  have hO := hi.sound.owned
  have hR := hi.keys.registry
  refine ⟨hsound,hkeys,fun rest hrest => ?_,?_,hi.connected,?_,nofun⟩
  · cases hrest
    exact report_keys_nodup hO hR hr
  · intro rest hrest ev hev hout p d x hc
    cases hrest
    obtain ⟨re,hre,hev⟩ := List.mem_filterMap.mp hev
    obtain ⟨y,hy,rfl,-⟩ := reportOne_eq_some hev
    obtain ⟨q,D,hq,hf⟩ := hO.registered_of_interest hy
    have hc : w.slotAt p = some ⟨.socket d,some y.key,x⟩ := hc
    obtain rfl := hR.slot_unique hq hc rfl rfl
    cases hq.symm.trans hc
    have hf : d.s = re.1 := hf
    have hsays := hrep re hre
    have hwatch : w.watcher re.1 = some d := by
      have hk : w.server.dispatcherByKey y.key = some q :=
        (hR.inverse _ _).mpr (World.slotAt_eq_some_iff.mp hc).2.1
      simp [World.watcher, hy, hk, World.socketAt_of_slotAt hc]
    have hquiet := List.all_eq_true.mp hin re hre
    simp only [hwatch, Option.all_some] at hquiet
    have hout : has re.2 epollOut = true := hout
    rw [← hf] at hsays hquiet
    constructor
    case settled =>
      intro hst
      rw [show tcp d.s = .connecting from hst, TcpState.reports, hout] at hsays
      cases hsays
    case idle =>
      intro hst
      have hst : tcp d.s = .idle := hst
      simpa [hout, hst] using hquiet
    case refused =>
      intro e he hst
      rwa [show tcp d.s = .refused e he from hst] at hsays
    case since => exact List.not_mem_nil
  · exact hi.timely.append [.reported _] (by simp)

/-- The delivery of DE_CONNECT that OnEvent starts with is timely. -/
private theorem timely_start {w : World} {tcp : Fd → TcpState} {ev : PendingEvent} {rest : List PendingEvent} {p : Ptr}
    {ff enabled : EventMask} (hi : ConnectInvariant ⟨⟨w,.batch (ev :: rest)⟩,tcp⟩)
    (hp : w.server.dispatcherByKey ev.key = some p)
    (hsince : has ff deConnect = true → .connecting p ∉ sinceReport w.trace) :
    TimelyConnects (.onEvent ev.key p ff enabled :: .processed ev.key p :: w.trace) := by
  intro newer k q ff' enabled' older heq hff
  cases newer with
  | nil =>
    cases heq
    obtain ⟨⟨recent,ks,before,htr,hno,hk,-⟩,-⟩ := hi.keys.deliveredRight hp
    have hnot := hsince hff
    rw [htr, sinceReport_reported hno] at hnot
    refine ⟨.processed ev.key p :: recent,ks,before,by rw [htr]; rfl,fun ks' hm => ?_,hk,fun hm => ?_⟩
    · exact hno ks' ((List.mem_cons.mp hm).resolve_left nofun)
    · exact hnot ((List.mem_cons.mp hm).resolve_left nofun)
  | cons e newer =>
    obtain ⟨-,heq⟩ := List.cons.inj heq
    exact hi.timely.append [.processed ev.key p] (by simp) newer k q ff' enabled' older heq hff

private theorem onEventState_connected {ff : EventMask} {state : ConnState} (h : onEventState ff state = .connected) :
    state = .connected ∨ has ff deConnect = true := by
  unfold onEventState at h
  split at h
  · cases h
  · split at h
    · rename_i hff
      exact .inr hff
    · exact .inl h

theorem ConnectInvariant.of_loopTurn {P : Policy} {s : NetState} {a : Action} {loop : LoopState} {tcp' : Fd → TcpState}
    (hi : ConnectInvariant s) (hto : a.onTcp s.loop s.tcp = some tcp') (hin : (NetAction.loop a).inTime s = true)
    (ht : LoopTurn P s.loop a loop) (hnop : ∀ o, a ≠ .op o) (hlt : (addedKeys loop.world.trace).length < 2 ^ 64) :
    ConnectInvariant ⟨loop,tcp'⟩ := by
  have hsound := ht.sound hi.sound
  have hkeys := ht.keysTrusted hi.sound hi.keys hlt
  obtain ⟨loop₀,tcp⟩ := s
  have hO := hi.sound.owned
  cases ht with
  | op => exact absurd rfl (hnop _)
  | @report w evs hr =>
    simp only [Action.onTcp, Option.ite_none_right_eq_some, Option.some_inj, List.all_eq_true] at hto
    obtain ⟨hrep,rfl⟩ := hto
    exact hi.report hsound hkeys hr hrep hin
  | @skip w ev rest so peek hn =>
    refine hi.of_turn hsound hkeys (fun r h => ?_) (fun q d κ y hq => ⟨d,y,hq,rfl,id,.inl⟩)
      (List.nil_append _).symm (by simp) (next_keep hto) (fun r h => ?_) hi.timely nofun
    · cases h
      exact ⟨_,rfl,List.sublist_cons_self _ _⟩
    · cases h
      exact next_same hi hto
  | @pass w ev rest p so peek hp =>
    refine hi.of_turn hsound hkeys (fun r h => ?_) (fun q d κ y hq => ⟨d,y,hq,rfl,id,.inl⟩)
      (List.singleton_append ..).symm (by simp) (next_keep hto) (fun r h => ?_)
      (hi.timely.append [.processed ev.key p] (by simp)) nofun
    · cases h
      exact ⟨_,rfl,List.sublist_cons_self _ _⟩
    · cases h
      exact next_same hi hto
  | @start w w' ev rest p d x so peek ff err hp hff ht =>
    have hcon := connected_at_start hi hto hp ht.before hff
    refine hi.of_turn hsound hkeys (fun r h => ?_) (fun q d' κ y hq => ?_) ht.trace (by simp) (next_keep hto)
      (fun r h => ?_) ?_ ?_
    · cases h
      exact ⟨_,rfl,List.sublist_cons_self _ _⟩
    · rcases ht.slot_cases hO hq with ⟨rfl,hc⟩ | ⟨-,hq⟩
      · cases hc
        refine ⟨d,x,ht.before,rfl,id,fun hst => (onEventState_connected hst).imp_right fun hff => ?_⟩
        exact ⟨(hO.ok _ _ ht.before).valid _ rfl,(hcon hff).1⟩
      · exact ⟨d',y,hq,rfl,id,.inl⟩
    · cases h
      exact next_same hi hto
    · rw [ht.trace]
      exact timely_start hi hp fun hff => (hcon hff).2
    · intro r k q ff' err' handler todo hc
      cases hc
      refine .inr ⟨rfl,rfl,fun hff' e κ y hx => ?_⟩
      cases hx.symm.trans ht.after
      exact (hcon hff').1
  | done =>
    cases hto
    exact hi.of_turn hsound hkeys nofun (fun q d κ y hq => ⟨d,y,hq,rfl,id,.inl⟩) (List.nil_append _).symm (by simp)
      (fun _ => id) nofun hi.timely nofun
  | @emit w w' rest key p ff err handler signal todo d κ x hs ht =>
    cases hto
    refine hi.of_turn hsound hkeys (fun r h => ⟨r,h,List.Sublist.refl _⟩) (fun q d' κ' y hq => ?_) ht.trace (by simp)
      (fun _ => id) (fun _ _ _ _ _ _ _ _ => rfl) ?_ (signalTrue_pop hi.signal)
    · rcases ht.slot_cases hO hq with ⟨rfl,hc⟩ | ⟨-,hq⟩
      · obtain ⟨d₀,x₀,he,rfl⟩ := Slot.eq_changeEvents hc
        cases he
        exact ⟨d,x,ht.before,rfl,has_of_and_left,.inl⟩
      · exact ⟨d',y,hq,rfl,id,.inl⟩
    · rw [ht.trace]
      exact hi.timely.append _ (by simp)
  | @passBy w rest key p ff err handler signal todo hs =>
    cases hto
    exact hi.of_turn hsound hkeys (fun r h => ⟨r,h,List.Sublist.refl _⟩)
      (fun q d κ y hq => ⟨d,y,hq,rfl,id,.inl⟩) (List.nil_append _).symm (by simp)
      (fun _ => id) (fun _ _ _ _ _ _ _ _ => rfl) hi.timely (signalTrue_pop hi.signal)
  | @finish w w' rest key p ff err handler d κ x ht =>
    cases hto
    refine hi.of_turn hsound hkeys (fun r h => ⟨r,h,List.Sublist.refl _⟩) (fun q d' κ' y hq => ?_) ht.trace (by simp)
      (fun _ => id) (fun _ _ _ _ _ _ _ _ => rfl) ?_ nofun
    · rcases ht.slot_cases hO hq with ⟨rfl,hc⟩ | ⟨-,hq⟩
      · obtain ⟨x₀,he⟩ := Slot.eq_mayBeUpdate hc
        cases he
        exact ⟨d,x,ht.before,rfl,id,.inl⟩
      · exact ⟨d',y,hq,rfl,id,.inl⟩
    · rw [ht.trace]
      exact hi.timely.append _ (by simp)

private theorem start_connectInvariant {afd : Fd} (h : 0 ≤ afd) (p : Ptr) :
    ConnectInvariant ⟨⟨World.start p afd,.idle⟩,fun _ => .idle⟩ := by
  refine ⟨sound_start h p,start_keysTrusted h p,nofun,nofun,?_,?_,nofun⟩
  · intro q d κ x hc
    have hc : (World.start p afd).slotAt q = _ := hc
    rw [start_slotAt h] at hc
    split at hc
    · cases hc
    · cases hc
  · have hnil : TimelyConnects [] := fun newer k q ff enabled older ht => by simp at ht
    have ht : (World.start p afd).trace = [.added 0 p,.opened afd] ++ [] := by rw [World.start_eq h]; rfl
    simp only [ht]
    exact hnil.append _ (by simp)

/-- One step within the condition. -/
private theorem netStep_spec {s u : NetState} {a : NetAction} (hs : Sound s.loop) (h : netStep s a = some u) :
    Sound u.loop ∧ (addedKeys s.loop.world.trace).length ≤ (addedKeys u.loop.world.trace).length ∧
      (ConnectInvariant s → InTime s a → (addedKeys u.loop.world.trace).length < 2 ^ 64 → ConnectInvariant u) := by
  cases a with
  | loop a =>
    obtain ⟨tcp',hto,h⟩ := Option.bind_eq_some_iff.mp h
    obtain ⟨loop,hstep,rfl⟩ := Option.map_eq_some_iff.mp h
    by_cases hop : ∃ o, a = .op o
    · obtain ⟨o,rfl⟩ := hop
      have hin : Within (o.policy s.loop.world) s.loop (.op o) := Op.allowed_policy hto
      have ht := loopStep_turn (fun _ => rfl) hs hin hstep
      have hsound := ht.sound hs
      refine ⟨hsound,ht.addedKeys_le,fun hi hin hlt => ?_⟩
      have hkeys := ht.keysTrusted hs hi.keys hlt
      obtain ⟨⟨w,control⟩,tcp⟩ := s
      cases ht with
      | op hcan hr ha hw =>
        exact hi.op hcan hr hto hin (hw.follows hs.owned hs.linked hi.keys.registry hlt) hsound hkeys
    · have ht := loopStep_turn (P := .sockets) (fun _ => rfl) hs (by cases a <;> simp_all [Within, Action.allowed]) hstep
      exact ⟨ht.sound hs,ht.addedKeys_le,fun hi hin hlt => hi.of_loopTurn hto hin ht (fun o ho => hop ⟨o,ho⟩) hlt⟩
  | complete fd =>
    simp only [netStep, Option.ite_none_right_eq_some, Option.some_inj] at h
    obtain ⟨hfd,rfl⟩ := h
    exact ⟨hs,le_rfl,fun hi _ _ => hi.settle hfd⟩
  | refuse fd e =>
    simp only [netStep, Option.ite_none_right_eq_some, Option.dite_none_right_eq_some, Option.some_inj] at h
    obtain ⟨hfd,he,rfl⟩ := h
    exact ⟨hs,le_rfl,fun hi _ _ => hi.settle hfd⟩

/-- In every run, with fewer than 2^64 calls of Add, in which no Connect is left in progress or
fails with DE_CONNECT enabled on a dispatcher whose writable event is still ahead, and no idle
socket with DE_CONNECT enabled is reported writable, no connect event is premature. -/
theorem no_premature_connect {s : NetState} (h : netMachine.Reachable InTime s)
    (hlt : (addedKeys s.loop.world.trace).length < 2 ^ 64) : NoPrematureConnect s := by
  suffices hi : Sound s.loop ∧ ((addedKeys s.loop.world.trace).length < 2 ^ 64 → ConnectInvariant s) from
    (hi.2 hlt).noPrematureConnect
  refine Machine.Reachable.rule (I := fun s => Sound s.loop ∧
    ((addedKeys s.loop.world.trace).length < 2 ^ 64 → ConnectInvariant s)) h ?_ ?_
  · rintro ⟨loop,tcp⟩ ⟨⟨p,afd,ha,rfl⟩,rfl⟩
    exact ⟨sound_start ha p,fun _ => start_connectInvariant ha p⟩
  · rintro s a u ⟨hs,hi⟩ hin hstep
    obtain ⟨hsound,hle,hnext⟩ := netStep_spec hs hstep
    exact ⟨hsound,fun hlt => hnext (hi (lt_of_le_of_lt hle hlt)) hin hlt⟩

theorem net_start (p : Ptr) {afd : Fd} (h : 0 ≤ afd) :
    netMachine.init ⟨⟨World.start p afd,.idle⟩,fun _ => .idle⟩ := ⟨init_start p h,rfl⟩

private def connectedOn (p : Ptr) (fd : Fd) (s : NetState) : Bool :=
  decide ((addedKeys s.loop.world.trace).length = 2) && (s.loop.world.socketAt p).any fun d =>
    decide (d.s = fd ∧ d.state = .connected)

/-- A dispatcher connects before its socket is reported, and is told once it is connected. -/
theorem no_premature_connect_sample : ∃ s : NetState,
    (∃ d, s.loop.world.socketAt 1 = some d ∧ d.s = 5 ∧ d.state = .connected) ∧ NoPrematureConnect s := by
  have h : (netMachine.run InTime ⟨⟨World.start 0 3,.idle⟩,fun _ => .idle⟩
      [.loop (.op (.createSocket 1 2 .stream (.ok 5) none)),
        .loop (.op (.connect 1 2 (.error 0) none (.error einprogress))), .complete 5, .loop (.report [(5,epollOut)]),
        .loop (.next (.ok 0) (.ok 1)), .loop .advance]).any (connectedOn 1 5) = true := by
    decide +kernel
  obtain ⟨s,hs,hp⟩ := Machine.exists_reachable_of_run (net_start 0 (by decide)) h
  obtain ⟨hk,hp⟩ := Bool.and_eq_true_iff.mp hp
  obtain ⟨d,hd,hst⟩ := (Option.any_eq_true _ _).mp hp
  obtain ⟨hfd,hst⟩ := of_decide_eq_true hst
  exact ⟨s,⟨d,hd,hfd,hst⟩,no_premature_connect hs (by rw [of_decide_eq_true hk]; decide)⟩

private def toldEarly (p : Ptr) (s : NetState) : Bool :=
  decide ((addedKeys s.loop.world.trace).length = 3) && (s.loop.world.socketAt p).any fun d =>
    decide (d.state = .connected ∧ s.tcp d.s ≠ .connected)

/-- Two fresh sockets are reported in one batch; the handler of the first connects the second,
whose event then counts as the end of its Connect. -/
theorem premature_connect : ¬∀ s : NetState, netMachine.Reachable Machine.Free s →
    (addedKeys s.loop.world.trace).length < 2 ^ 64 → NoPrematureConnect s := by
  intro hall
  have h : (netMachine.run Machine.Free ⟨⟨World.start 0 3,.idle⟩,fun _ => .idle⟩
      [.loop (.op (.createSocket 1 2 .stream (.ok 5) none)), .loop (.op (.createSocket 2 2 .stream (.ok 6) none)),
        .loop (.report [(5,epollOut ||| epollHup),(6,epollOut ||| epollHup)]), .loop (.next (.ok 0) (.error eagain)),
        .loop .advance, .loop .advance, .loop .advance, .loop .advance,
        .loop (.op (.connect 2 2 (.error 0) none (.error einprogress))), .loop .advance, .loop .advance,
        .loop (.next (.ok 0) (.error eagain))]).any (toldEarly 2) = true := by
    decide +kernel
  obtain ⟨s,hs,hp⟩ := Machine.exists_reachable_of_run (net_start 0 (by decide)) h
  obtain ⟨hk,hp⟩ := Bool.and_eq_true_iff.mp hp
  obtain ⟨d,hd,hst⟩ := (Option.any_eq_true _ _).mp hp
  obtain ⟨hst,hne⟩ := of_decide_eq_true hst
  exact hne ((hall s hs (by rw [of_decide_eq_true hk]; decide)).connected 2 d hd hst).2

end UServer.Net
