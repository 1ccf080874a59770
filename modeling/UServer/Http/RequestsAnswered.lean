import UServer.Http.RequestEvent

/-! Is every request answered? A report may have the requests of many clients; each client gets the whole response
for each of its requests, in whatever order the clients are reported, and waits for the next one. -/
namespace UServer.Http
open Library Net

/-- The requests that are there when epoll_wait returns, one for each client. -/
structure Round (response : Response) (clients : Set Ptr) where
  requests : List (Ptr × Request response)
  nonempty : requests ≠ []
  fits : requests.length ≤ 128
  distinct : (requests.map Prod.fst).Nodup
  known : ∀ p ∈ requests.map Prod.fst, p ∈ clients

/-- The descriptor of the socket at an address. -/
def fdAt (w : World) (p : Ptr) : Fd := (w.socketAt p).elim invalidSocket SocketDispatcher.s

/-- What epoll_wait reports is what is ready and asked for. -/
def Request.events {response : Response} (r : Request response) (w : World) (p : Ptr) : EpollMask :=
  (if r.writable then epollIn ||| epollOut else epollIn) &&& w.kernel.mask (fdAt w p)

namespace Round
variable {response : Response} {clients : Set Ptr}

def addresses (round : Round response clients) : List Ptr := round.requests.map Prod.fst

def report (round : Round response clients) (w : World) : List (Fd × EpollMask) :=
  round.requests.map fun pr => (fdAt w pr.1, pr.2.events w pr.1)

/-- One turn of WaitEpoll. -/
def actions (round : Round response clients) (w : World) : List HttpAction :=
  .report (round.report w) :: (round.requests.flatMap (fun pr => pr.2.actions) ++ [.next (.ok 0) (.ok 0)])

end Round

/-- The turns of WaitEpoll one after the other. -/
def serve (response : Response) {clients : Set Ptr} : HttpServer → List (Round response clients) → Option HttpServer
  | s, [] => some s
  | s, round :: rounds =>
    ((httpMachine response).run Machine.Free s (round.actions s.world)).bind fun t => serve response t rounds

/-- What the clients at some addresses, each taken so many times, were answered since before. -/
structure Answered (response : Response) (addresses : List Ptr) (s t : HttpServer) : Prop where
  running : t.hung = false
  awaits : ∀ q, Awaits q s → Awaits q t
  handed : ∀ q, t.handed q = s.handed q ++ (List.replicate (addresses.count q) response.bytes).flatten
  server : t.world.server = s.world.server

namespace Answered
variable {response : Response} {addresses addresses' : List Ptr} {p : Ptr} {s t u : HttpServer}

theorem none (h : t.hung = false) (hslots : t.slots = s.slots) (hhanded : t.handed = s.handed)
    (hd : t.world.dispatchers = s.world.dispatchers) (hs : t.world.server = s.world.server) :
    Answered response [] s t := by
  have hsock (q : Ptr) : t.world.socketAt q = s.world.socketAt q := by
    simp only [World.socketAt, hd]
  refine ⟨h,fun q ha => ?_,fun q => ?_,hs⟩
  · refine ⟨hslots ▸ ha.reads,hslots ▸ ha.done,?_,ha.armed.of_eq (hsock q)⟩
    rw [openAt, hsock]
    exact ha.isOpen
  · rw [hhanded, List.count_nil, List.replicate_zero, List.flatten_nil, List.append_nil]

theorem trans (h : Answered response addresses s t) (h' : Answered response addresses' t u) :
    Answered response (addresses ++ addresses') s u := by
  refine ⟨h'.running,fun q ha => h'.awaits q (h.awaits q ha),fun q => ?_,h'.server.trans h.server⟩
  rw [h'.handed, h.handed, List.count_append, List.replicate_add, List.flatten_append, List.append_assoc]

/-- The event of one client. -/
theorem of_handled (h : Handled response p s 1 t) : Answered response [p] s t := by
  refine ⟨h.running,fun q ha => ?_,fun q => ?_,h.spares.server⟩
  · have hreads : (t.slots q).read = some .onRead := h.slots ▸ ha.reads
    have hdone : (t.slots q).write = 0 := h.slots ▸ ha.done
    by_cases hq : q = p
    · rw [hq] at hreads hdone ⊢
      exact ⟨hreads,hdone,h.isOpen,h.armed⟩
    · have hsock := h.spares.others q hq
      refine ⟨hreads,hdone,?_,ha.armed.of_eq hsock⟩
      rw [openAt, hsock]
      exact ha.isOpen
  · rw [h.handed]
    by_cases hq : q = p
    · rw [hq, Function.update_self, List.count_singleton_self]
    · rw [Function.update_of_ne hq, List.count_singleton, if_neg (by simpa using Ne.symm hq), List.replicate_zero,
        List.flatten_nil, List.append_nil]

end Answered

section Batch
variable {response : Response} {s : HttpServer}

/-- The events of a batch in turn. -/
theorem batch_answered (hb : response.bytes ≠ []) {requests : List (Ptr × Request response)} {pending : List PendingEvent}
    (hp : List.Forall₂ (fun ev (pr : Ptr × Request response) => Readable pr.1 s.world ev) pending requests)
    (ha : ∀ p ∈ requests.map Prod.fst, Awaits p s) (hs : s.hung = false) (hc : s.loop.control = .batch pending) :
    ∃ t, (httpMachine response).run Machine.Free s (requests.flatMap fun pr => pr.2.actions) = some t ∧
      t.loop.control = .batch [] ∧ Answered response (requests.map Prod.fst) s t := by
  induction requests generalizing s pending with
  | nil =>
    cases hp
    exact ⟨s,rfl,hc,.none hs rfl rfl rfl rfl⟩
  | cons pr requests ih =>
    obtain ⟨p,r⟩ := pr
    cases hp with
    | @cons ev _ pending _ hev hp =>
      rw [List.map_cons, List.forall_mem_cons] at ha
      obtain ⟨t,ht,hct,hh⟩ := event_handled hb r hs ha.1 hev hc
      have hone := Answered.of_handled hh
      have hp' : List.Forall₂ (fun ev (pr : Ptr × Request response) => Readable pr.1 t.world ev) pending requests :=
        hp.imp fun _ _ hr => ⟨hone.server ▸ hr.found,hr.reads,hr.sane⟩
      obtain ⟨u,hu,hcu,hall⟩ := ih hp' (fun q hq => hone.awaits q (ha.2 q hq)) hone.running hct
      refine ⟨u,?_,hcu,hone.trans hall⟩
      rw [List.flatMap_cons, Machine.run_append, ht, Option.bind_some]
      exact hu

end Batch

section Report
variable {response : Response} {p : Ptr} {w : World}

theorem fdAt_eq {d : SocketDispatcher} (h : w.socketAt p = some d) : fdAt w p = d.s := by
  rw [fdAt, h]
  rfl

/-- A client that waits is reported when there is data, and not for an error. -/
theorem reportOne_readable (hi : InterestFollows w) (hinv : w.server.Inverse) (hreg : RegisteredAt p w)
    (ho : openAt w p = true) (ha : ArmedAt p w) (r : Request response) :
    ∃ ev, reportOne w.kernel (fdAt w p,r.events w p) = some ev ∧ Readable p w ev := by
  obtain ⟨d,hd,hv⟩ := openAt_iff.mp ho
  obtain ⟨k,hk⟩ := Option.isSome_iff_exists.mp (hreg d hd hv)
  obtain ⟨hmask,hkey⟩ := hi.registered p k _ hk (World.socketAt_eq_some_iff.mp hd)
  have hmask : w.kernel.mask (fdAt w p) = getEpollEvents d.enabledEvents := by
    rw [fdAt_eq hd]
    exact hmask
  have hin : has (w.kernel.mask (fdAt w p)) epollIn = true := by
    rw [hmask, has_getEpollEvents_in, has_or_right, ha d hd hv, Bool.true_or]
  have hevents : has (r.events w p) epollIn = true := by
    unfold Request.events
    rw [BitVec.and_comm]
    split <;> exact (has_and_of_subset _ _ _ (by decide)).trans hin
  have hsane : has (r.events w p) (epollRdHup ||| epollErr ||| epollHup) = false := by
    unfold Request.events
    split <;> exact has_and_left _ _ _ (by decide)
  cases hx : w.kernel.interest (fdAt w p) with
  | none =>
    have hzero : w.kernel.mask (fdAt w p) = 0#32 := by
      rw [Kernel.mask, hx]
      rfl
    rw [hzero, zero_has] at hin
    cases hin
  | some x =>
    have hx' : w.kernel.mask (fdAt w p) = x.events := by
      rw [Kernel.mask, hx]
      rfl
    have hkey : x.key = k := hkey x ((congrArg w.kernel.interest (fdAt_eq hd)).symm.trans hx)
    refine ⟨⟨x.key,r.events w p⟩,?_,?_,hevents,hsane⟩
    · have hne : r.events w p ≠ 0 := by
        intro hz
        rw [hz] at hevents
        cases (zero_has (w := 32) epollIn).symm.trans hevents
      have hsub : r.events w p &&& ~~~(x.events ||| epollErr ||| epollHup) = 0 := by
        rw [Request.events, hx', BitVec.and_assoc, BitVec.or_assoc, and_not_or]
        exact BitVec.and_zero
      simp only [reportOne, hx, if_pos (And.intro hne hsub)]
    · rw [hkey]
      exact (hinv k p).mpr hk

/-- The report of a round is one that epoll_wait can give, and its events are those of the clients in turn. -/
theorem report_readable {requests : List (Ptr × Request response)}
    (h : ∀ pr ∈ requests, ∃ ev, reportOne w.kernel (fdAt w pr.1,pr.2.events w pr.1) = some ev ∧ Readable pr.1 w ev) :
    ((requests.map fun pr => (fdAt w pr.1,pr.2.events w pr.1)).all fun ev => (reportOne w.kernel ev).isSome) = true ∧
      List.Forall₂ (fun ev (pr : Ptr × Request response) => Readable pr.1 w ev)
        ((requests.map fun pr => (fdAt w pr.1,pr.2.events w pr.1)).filterMap (reportOne w.kernel)) requests := by
  induction requests with
  | nil => exact ⟨rfl,.nil⟩
  | cons pr requests ih =>
    obtain ⟨⟨ev,hev,hr⟩,h⟩ := List.forall_mem_cons.mp h
    obtain ⟨hall,hrest⟩ := ih h
    rw [List.map_cons, List.all_cons, List.filterMap_cons_some hev, hev, hall]
    exact ⟨rfl,.cons hr hrest⟩

/-- Two open sockets have two descriptors. -/
theorem fdAt_inj {busy : Option Ptr} (hO : Owned w busy) {q : Ptr} (hp : openAt w p = true) (hq : openAt w q = true)
    (h : fdAt w p = fdAt w q) : p = q := by
  obtain ⟨d,hd,hv⟩ := openAt_iff.mp hp
  obtain ⟨e,he,-⟩ := openAt_iff.mp hq
  rw [fdAt_eq hd, fdAt_eq he] at h
  exact hO.distinct p q _ _ (World.slotAt_of_socketAt hd) (World.slotAt_of_socketAt he) h hv

end Report

section Rounds
variable {response : Response} {clients : Set Ptr} {s : HttpServer}

/-- A run of the server goes on with the run of the loop. -/
theorem regular_run {t : HttpServer} {as : List HttpAction} (h : loopMachine.Reachable Regular s.loop)
    (ht : (httpMachine response).run Machine.Free s as = some t) : loopMachine.Reachable Regular t.loop :=
  (Machine.reaches_of_run ht).rule (R := fun u => loopMachine.Reachable Regular u.loop) h
    fun _ _ _ _ hu _ he => (httpStep_turn he).2.reachable hu

/-- One turn of WaitEpoll with requests of clients that wait. -/
theorem round_answered (hb : response.bytes ≠ []) (h : loopMachine.Reachable Regular s.loop)
    (hinv : s.world.server.Inverse) (hidle : s.loop.control = .idle) (hs : s.hung = false)
    (ha : ∀ p ∈ clients, Awaits p s) (round : Round response clients) :
    ∃ t, (httpMachine response).run Machine.Free s (round.actions s.world) = some t ∧ t.loop.control = .idle ∧
      Answered response round.addresses s t := by
  have hsound := regular_sound h
  have hinterest := regular_interest h (by rw [hidle]; rfl)
  have hwait : ∀ p ∈ round.addresses, Awaits p s := fun p hp => ha p (round.known p hp)
  have hone : ∀ pr ∈ round.requests, ∃ ev, reportOne s.world.kernel (fdAt s.world pr.1,pr.2.events s.world pr.1) =
      some ev ∧ Readable pr.1 s.world ev := by
    intro pr hpr
    have hw := hwait pr.1 (List.mem_map_of_mem hpr)
    exact reportOne_readable hinterest hinv (regular_registered h pr.1) hw.isOpen hw.armed pr.2
  obtain ⟨hall,hread⟩ := report_readable hone
  set pending := (round.report s.world).filterMap (reportOne s.world.kernel) with hpending
  have hready : reportReady s.world.kernel (round.report s.world) = true := by
    have hempty : (round.report s.world).isEmpty = false := by
      simpa [Round.report] using round.nonempty
    have hfits : (round.report s.world).length ≤ 128 := by
      simpa [Round.report] using round.fits
    have hfds : ((round.report s.world).map Prod.fst).Nodup := by
      have he : (round.report s.world).map Prod.fst = round.addresses.map (fdAt s.world) := by
        rw [Round.report, Round.addresses, List.map_map, List.map_map]
        rfl
      rw [he]
      exact round.distinct.map_on fun p hp q hq => fdAt_inj hsound.owned (hwait p hp).isOpen (hwait q hq).isOpen
    have hall : (round.report s.world).all (fun ev => (reportOne s.world.kernel ev).isSome) = true := hall
    rw [reportReady, hempty, decide_eq_true hfits, decide_eq_true hfds, hall]
    rfl
  set v : HttpServer := { s with
    loop := ⟨s.world.log (.reported (pending.map PendingEvent.key)),.batch pending⟩ } with hv
  have hreport : httpStep response s (.report (round.report s.world)) = some v := by
    have hl : loopStep s.loop (.report (round.report s.world)) =
        some ⟨s.world.log (.reported (pending.map PendingEvent.key)),.batch pending⟩ := by
      simp only [loopStep, hidle]
      exact if_pos hready
    exact httpStep_quiet hs rfl hl
  have hzero : Answered response [] s v := .none hs rfl rfl rfl rfl
  have hread : List.Forall₂ (fun ev (pr : Ptr × Request response) => Readable pr.1 v.world ev) pending round.requests :=
    hread.imp fun _ _ hr => ⟨hr.found,hr.reads,hr.sane⟩
  obtain ⟨t,ht,hct,hall⟩ := batch_answered hb hread (fun p hp => hzero.awaits p (hwait p hp)) hs rfl
  set u : HttpServer := { t with loop := ⟨t.world,.idle⟩ } with hu
  have hdone : httpStep response t (.next (.ok 0) (.ok 0)) = some u := by
    have hl : loopStep t.loop (.next (.ok 0) (.ok 0)) = some ⟨t.world,.idle⟩ := by
      simp only [loopStep, hct]
      rfl
    exact httpStep_quiet hall.running rfl hl
  have hlast : Answered response [] t u := .none hall.running rfl rfl rfl rfl
  refine ⟨u,?_,rfl,?_⟩
  · rw [Round.actions, Machine.run_cons trivial hreport, Machine.run_append, ht, Option.bind_some,
      Machine.run_cons trivial hdone]
    rfl
  · have htotal := (hzero.trans hall).trans hlast
    rw [List.nil_append, List.append_nil] at htotal
    exact htotal

end Rounds

/-- The listener reports two clients, which get descriptors 5 and 6. -/
private def twoClients : List HttpAction :=
  [.report [(4,epollIn)], .next (.ok 0) (.error 107), .advance ⟨[],[],[]⟩,
    .advance ⟨[⟨.ok 5,2,some .stream,none⟩,⟨.ok 6,3,some .stream,none⟩,⟨.error eagain,4,none,none⟩],[],[]⟩,
    .advance ⟨[],[],[]⟩, .advance ⟨[],[],[]⟩, .advance ⟨[],[],[]⟩, .advance ⟨[],[],[]⟩, .next (.ok 0) (.ok 1)]

/-- A request in two parts, from a client that can be written to. -/
private def twoParts : Request shortResponse where
  so := .ok 0
  pending := 1
  readable := by decide
  writable := true
  chunk := ⟨[71],by decide,by decide⟩
  recvs := [.data ⟨[69],by decide,by decide⟩, .error eagain]
  sends := [.room 9]
  room := by decide

private def bothAsk : Round shortResponse {2, 3} where
  requests := [(3,twoParts), (2,twoParts)]
  nonempty := by simp
  fits := by simp
  distinct := by simp
  known := by simp

private def oneAsks : Round shortResponse {2, 3} where
  requests := [(2,twoParts)]
  nonempty := by simp
  fits := by simp
  distinct := by simp
  known := by simp

private def bothAwait (s : HttpServer) : Bool :=
  s.loop.control.canCall && decide (s.loop.control.busy = none) && decide (s.handed 2 = []) &&
    decide (s.handed 3 = []) && decide ((addedKeys s.world.trace).length = 4) && decide (Awaits 2 s) && decide (Awaits 3 s)

end UServer.Http
