import UServer.Net.SelectLoop

/-! The rounds of WaitSelect: what select reports reaches its dispatchers once and is not lost, whatever has gathered in
current_dispatcher_keys_. -/
namespace UServer.Net
open Library

/-- A call of ProcessEvents, with the events that it comes to. -/
structure Handover where
  fd : Fd
  readable : Bool
  writeable : Bool
  ff : EventMask

/-- A round: the server that the collection phase went through, the sets that select left, the calls of ProcessEvents,
latest first, and the keys erased since the collection. -/
structure SelectRound where
  collected : SelectServer
  reportedRead : FdSet
  reportedWrite : FdSet
  handovers : List Handover
  erased : List Key

def SelectRound.empty : SelectRound :=
  ⟨⟨fun _ => none,0,∅,fun _ => none,[],0,false⟩,∅,∅,[],[]⟩

/-- What a dispatcher's turn in the loop over current_dispatcher_keys_ hands to ProcessEvents. -/
def SelectFrame.handover (f : SelectFrame) (dispatcher : Dispatcher) (so : Except Errno Errno)
    (peek : Except Errno Nat) : Handover :=
  let fd := dispatcher.getDescriptor
  let readable := decide (fd ∈ f.fdsRead)
  let writeable := decide (fd ∈ f.fdsWrite)
  ⟨fd,readable,writeable,(processEvents dispatcher readable writeable false (readable || writeable) so peek).1⟩

namespace SelectServer

/-- The dispatcher that a key finds. -/
def dispatcherAt (s : SelectServer) (key : Key) : Option Dispatcher :=
  (s.dispatcherByKey.lookup key).bind s.dispatchers

/-- A key that finds a dispatcher with that descriptor. -/
def Finds (s : SelectServer) (key : Key) (fd : Fd) : Prop :=
  (s.dispatcherAt key).map Dispatcher.getDescriptor = some fd

/-- Some registered dispatcher asks for one of the events on that descriptor. -/
def Requests (s : SelectServer) (events : EventMask) (fd : Fd) : Prop :=
  ∃ key d, s.dispatcherAt key = some d ∧ d.getDescriptor = fd ∧ has d.getRequestedEvents events = true

def registered (s : SelectServer) (p : Ptr) : Bool := s.dispatcherByKey.entries.any fun kv => kv.2 = p

end SelectServer

/-- The record of the round that is going on, or of the last one. -/
def noteRound (s : SelectState) (a : SelectAction) (t : SelectState) (g : SelectRound) : SelectRound :=
  match a with
  | .remove p => { g with erased := (s.server.keyByDispatcher p).toList ++ g.erased }
  | .turn _ =>
    match t.control with
    | .selecting _ => ⟨s.server,∅,∅,[],[]⟩
    | _ => g
  | .select (.ready fdsRead fdsWrite) => { g with reportedRead := fdsRead, reportedWrite := fdsWrite }
  | .next so peek =>
    match s.control with
    | .dispatching f (key :: _) =>
      { g with handovers :=
        ((s.server.dispatcherAt key).map fun d => f.handover d so peek).toList ++ g.handovers }
    | _ => g
  | _ => g

def roundMachine : Machine (SelectState × SelectRound) SelectAction := selectMachine.recorded .empty noteRound

/-- A dispatcher takes another descriptor only while it is not registered: Close removes it before, and Create adds it
after. -/
def KeepsDescriptors (s : SelectState) (a : SelectAction) : Prop :=
  match a with
  | .change p dispatcher => s.server.registered p = true →
    dispatcher.map Dispatcher.getDescriptor = (s.server.dispatchers p).map Dispatcher.getDescriptor
  | _ => True

instance (s : SelectState) (a : SelectAction) : Decidable (KeepsDescriptors s a) :=
  match a with
  | .change _ _ => inferInstanceAs (Decidable (_ → _))
  | .add _ | .remove _ | .wait _ _ | .turn _ | .select _ | .next _ _ | .resume => .isTrue trivial

/-- Where a control stands in its round. -/
inductive RoundStage where
  | away
  | selecting (f : SelectFrame)
  | dispatching (f : SelectFrame) (rest : List Key)

instance (stage : RoundStage) : Decidable (stage = .away) :=
  match stage with
  | .away => .isTrue rfl
  | .selecting _ | .dispatching _ _ => .isFalse (by simp)

def SelectControl.stage : SelectControl → RoundStage
  | .idle _ | .looping _ => .away
  | .selecting f => .selecting f
  | .dispatching f rest | .handling f rest => .dispatching f rest

/-- What a step does to a round and its record. -/
inductive RoundTurn (s : SelectState) (a : SelectAction) (t : SelectState) : Prop
  | aside (erased : List Key) (hstage : t.control.stage = s.control.stage)
      (hk : t.server.currentDispatcherKeys = s.server.currentDispatcherKeys)
      (hf : KeepsDescriptors s a → ∀ key fd, s.server.Finds key fd → t.server.Finds key fd ∨ key ∈ erased)
      (hn : ∀ g, noteRound s a t g = { g with erased := erased ++ g.erased })
  | leave (hs : s.control.stage = .away ∨ (∃ f, s.control.stage = .selecting f) ∨
        ∃ f, s.control.stage = .dispatching f [])
      (ht : t.control.stage = .away) (hf : t.server.Finds = s.server.Finds) (hn : ∀ g, noteRound s a t g = g)
  | collect (f : SelectFrame) (order : List (Sigma fun _ : Key => Ptr)) (c : Collected)
      (ho : order.Perm s.server.dispatcherByKey.entries) (hc : s.server.collect f.processIo order = some c)
      (hk : t.server.currentDispatcherKeys = c.keys) (hf : t.server.Finds = s.server.Finds)
      (ht : t.control.stage = .selecting { f with fdmax := c.fdmax, fdsRead := c.fdsRead, fdsWrite := c.fdsWrite })
      (hn : ∀ g, noteRound s a t g = ⟨s.server,∅,∅,[],[]⟩)
  | report (f : SelectFrame) (fdsRead fdsWrite : FdSet) (hs : s.control.stage = .selecting f)
      (hread : fdsRead ⊆ f.fdsRead) (hwrite : fdsWrite ⊆ f.fdsWrite) (hf : t.server = s.server)
      (ht : t.control.stage =
        .dispatching { f with fdsRead := fdsRead, fdsWrite := fdsWrite } s.server.currentDispatcherKeys)
      (hn : ∀ g, noteRound s a t g = { g with reportedRead := fdsRead, reportedWrite := fdsWrite })
  | skip (f : SelectFrame) (key : Key) (rest : List Key) (hs : s.control.stage = .dispatching f (key :: rest))
      (hd : s.server.dispatcherAt key = none) (hf : t.server = s.server)
      (ht : t.control.stage = .dispatching f rest) (hn : ∀ g, noteRound s a t g = g)
  | hand (f : SelectFrame) (key : Key) (rest : List Key) (d : Dispatcher) (so : Except Errno Errno)
      (peek : Except Errno Nat) (hs : s.control.stage = .dispatching f (key :: rest))
      (hd : s.server.dispatcherAt key = some d) (hf : t.server.Finds = s.server.Finds)
      (ht : t.control.stage = .dispatching { f with
        fdsRead := f.fdsRead.erase d.getDescriptor, fdsWrite := f.fdsWrite.erase d.getDescriptor } rest)
      (hn : ∀ g, noteRound s a t g = { g with handovers := f.handover d so peek :: g.handovers })

namespace SelectServer
variable {s : SelectServer} {key : Key} {fd : Fd} {p : Ptr}

/-- Add takes no dispatcher from its key. -/
theorem finds_add (h : s.Finds key fd) : (s.add p).Finds key fd := by
  unfold add
  split
  · exact h
  · unfold Finds dispatcherAt at h ⊢
    obtain ⟨d,hd,hfd⟩ := Option.map_eq_some_iff.mp h
    obtain ⟨q,hq,hd⟩ := Option.bind_eq_some_iff.mp hd
    dsimp only
    have hkeep : AList.lookup key (DispatcherMap.emplace s.dispatcherByKey s.nextDispatcherKey p) = some q := by
      have hl := congrFun (DispatcherMap.lookup_emplace s.dispatcherByKey s.nextDispatcherKey p) key
      rw [hl, UServer.Net.emplace]
      split
      · exact hq
      · rename_i hn
        rwa [Function.update_of_ne]
        rintro rfl
        rw [hq] at hn
        exact hn rfl
    rw [hkeep, Option.bind_some, hd, Option.map_some, hfd]

/-- Remove takes the dispatcher from one key, which it erases. -/
theorem finds_remove (h : s.Finds key fd) : (s.remove p).Finds key fd ∨ key ∈ (s.keyByDispatcher p).toList := by
  unfold remove
  split
  · exact .inl h
  · rename_i k hk
    rw [hk, Option.toList_some, List.mem_singleton]
    by_cases hkey : key = k
    · exact .inr hkey
    · refine .inl ?_
      unfold Finds dispatcherAt at h ⊢
      rwa [AList.lookup_erase_ne hkey]

/-- A change that leaves a registered dispatcher its descriptor. -/
theorem finds_change {dispatcher : Option Dispatcher}
    (hkeep : s.registered p = true →
      dispatcher.map Dispatcher.getDescriptor = (s.dispatchers p).map Dispatcher.getDescriptor)
    (h : s.Finds key fd) : ({ s with dispatchers := Function.update s.dispatchers p dispatcher }).Finds key fd := by
  unfold Finds dispatcherAt at h ⊢
  cases hq : s.dispatcherByKey.lookup key with
  | none =>
    rw [hq] at h
    cases h
  | some q =>
    rw [hq, Option.bind_some] at h
    dsimp only [Option.bind_some]
    by_cases hqp : q = p
    · subst hqp
      have hreg : s.registered q = true :=
        List.any_eq_true.mpr ⟨⟨key,q⟩,AList.mem_lookup_iff.mp hq,decide_eq_true rfl⟩
      rw [Function.update_self, hkeep hreg, h]
    · rwa [Function.update_of_ne hqp]

/-- What each turn of the collection phase keeps. -/
theorem collect_rule {processIo : Bool} {order : List (Sigma fun _ : Key => Ptr)} {c : Collected} {I : Collected → Prop}
    (h : s.collect processIo order = some c) (h₀ : I ⟨s.currentDispatcherKeys,-1,∅,∅⟩)
    (hstep : ∀ kv ∈ order, ∀ c c', I c → s.collectEntry processIo c kv = some c' → I c') : I c := by
  unfold collect at h
  generalize Collected.mk s.currentDispatcherKeys (-1) ∅ ∅ = c₀ at h h₀
  induction order generalizing c₀ with
  | nil =>
    cases h
    exact h₀
  | cons kv order ih =>
    obtain ⟨c₁,h₁,h⟩ := Option.bind_eq_some_iff.mp h
    exact ih (fun kv hkv => hstep kv (List.mem_cons_of_mem _ hkv)) c₁ h (hstep kv List.mem_cons_self c₀ c₁ h₀ h₁)

/-- A descriptor in one of the sets is of a key that is collected, and its dispatcher asks for that set's events. -/
structure AsksFor (s : SelectServer) (c : Collected) : Prop where
  found : ∀ fd, fd ∈ c.fdsRead ∨ fd ∈ c.fdsWrite → ∃ key ∈ c.keys, s.Finds key fd
  reads : ∀ fd ∈ c.fdsRead, s.Requests (deRead ||| deAccept) fd
  writes : ∀ fd ∈ c.fdsWrite, s.Requests (deWrite ||| deConnect) fd

theorem asksFor_entry {processIo : Bool} {kv : Sigma fun _ : Key => Ptr} {c c' : Collected} (hi : s.AsksFor c)
    (hkv : s.dispatcherByKey.lookup kv.1 = some kv.2) (h : s.collectEntry processIo c kv = some c') : s.AsksFor c' := by
  unfold collectEntry at h
  split at h
  · split at h
    · cases h
    · rename_i d hd
      obtain ⟨-,h⟩ := Option.ite_none_left_eq_some.mp h
      have hat : s.dispatcherAt kv.1 = some d := by rw [dispatcherAt, hkv, Option.bind_some, hd]
      have hfind : s.Finds kv.1 d.getDescriptor := by rw [Finds, hat, Option.map_some]
      have hold {fd : Fd} (hm : fd ∈ c.fdsRead ∨ fd ∈ c.fdsWrite) : ∃ key ∈ c.keys ++ [kv.1], s.Finds key fd := by
        obtain ⟨key,hkey,hf⟩ := hi.found fd hm
        exact ⟨key,List.mem_append_left _ hkey,hf⟩
      have hnew : ∃ key ∈ c.keys ++ [kv.1], s.Finds key d.getDescriptor :=
        ⟨kv.1,List.mem_append_right _ (List.mem_singleton_self _),hfind⟩
      cases h
      refine ⟨fun fd hm => ?_,fun fd hm => ?_,fun fd hm => ?_⟩
      · dsimp only at hm ⊢
        rcases hm with hm | hm
        · split at hm
          · rcases Finset.mem_insert.mp hm with rfl | hm
            · exact hnew
            · exact hold (.inl hm)
          · exact hold (.inl hm)
        · split at hm
          · rcases Finset.mem_insert.mp hm with rfl | hm
            · exact hnew
            · exact hold (.inr hm)
          · exact hold (.inr hm)
      · dsimp only at hm
        split at hm
        · rename_i hreads
          rcases Finset.mem_insert.mp hm with rfl | hm
          · exact ⟨kv.1,d,hat,rfl,hreads⟩
          · exact hi.reads fd hm
        · exact hi.reads fd hm
      · dsimp only at hm
        split at hm
        · rename_i hwrites
          rcases Finset.mem_insert.mp hm with rfl | hm
          · exact ⟨kv.1,d,hat,rfl,hwrites⟩
          · exact hi.writes fd hm
        · exact hi.writes fd hm
  · cases h
    exact hi

theorem asksFor_collect {processIo : Bool} {order : List (Sigma fun _ : Key => Ptr)} {c : Collected}
    (ho : order.Perm s.dispatcherByKey.entries) (h : s.collect processIo order = some c) : s.AsksFor c := by
  refine collect_rule h ⟨by simp,by simp,by simp⟩ fun kv hkv c c' hi he => asksFor_entry hi ?_ he
  exact AList.mem_lookup_iff.mpr (ho.mem_iff.mp hkv)

end SelectServer

section
variable {s t : SelectState} {a : SelectAction}

theorem roundTurn_of_turn {f : SelectFrame} {order : List (Sigma fun _ : Key => Ptr)} (hc : s.control = .looping f)
    (h : selectTurn s.server f order = some t) : RoundTurn s (.turn order) t := by
  unfold selectTurn at h
  split at h
  · obtain ⟨ho,h⟩ := Option.ite_none_right_eq_some.mp h
    obtain ⟨c,hcol,rfl⟩ := Option.map_eq_some_iff.mp h
    exact .collect f order c ho hcol rfl rfl rfl fun _ => rfl
  · cases h
    exact .leave (.inl (by rw [hc]; rfl)) rfl rfl fun _ => rfl

theorem roundTurn_of_select {f : SelectFrame} {answer : SelectAnswer} (hc : s.control = .selecting f)
    (h : selectAnswered s.server f answer = some t) : RoundTurn s (.select answer) t := by
  have hs : s.control.stage = .selecting f := by rw [hc]; rfl
  cases answer with
  | failed e =>
    cases h
    exact .leave (.inr (.inl ⟨f,hs⟩)) (by dsimp only; split <;> rfl) rfl fun _ => rfl
  | timeout =>
    obtain ⟨-,h⟩ := Option.ite_none_left_eq_some.mp h
    cases h
    exact .leave (.inr (.inl ⟨f,hs⟩)) rfl rfl fun _ => rfl
  | ready fdsRead fdsWrite =>
    obtain ⟨ha,h⟩ := Option.ite_none_right_eq_some.mp h
    cases h
    exact .report f fdsRead fdsWrite hs (ha.1.trans (Finset.filter_subset ..))
      (ha.2.1.trans (Finset.filter_subset ..)) rfl rfl fun _ => rfl

theorem roundTurn_of_next {f : SelectFrame} {key : Key} {rest : List Key} {so : Except Errno Errno}
    {peek : Except Errno Nat} (hc : s.control = .dispatching f (key :: rest))
    (h : selectNext s.server f key rest so peek = some t) : RoundTurn s (.next so peek) t := by
  have hs : s.control.stage = .dispatching f (key :: rest) := by rw [hc]; rfl
  have hn (g : SelectRound) : noteRound s (.next so peek) t g = { g with handovers :=
      ((s.server.dispatcherAt key).map fun d => f.handover d so peek).toList ++ g.handovers } := by
    simp only [noteRound, hc]
  unfold selectNext at h
  split at h
  · rename_i hl
    cases h
    have hd : s.server.dispatcherAt key = none := by rw [SelectServer.dispatcherAt, hl, Option.bind_none]
    exact .skip f key rest hs hd rfl rfl fun g => by rw [hn, hd]; rfl
  · rename_i p hl
    split at h
    · cases h
    · rename_i d hp
      have hd : s.server.dispatcherAt key = some d := by rw [SelectServer.dispatcherAt, hl, Option.bind_some, hp]
      obtain ⟨-,h⟩ := Option.ite_none_left_eq_some.mp h
      have hn' (g : SelectRound) : noteRound s (.next so peek) t g =
          { g with handovers := f.handover d so peek :: g.handovers } := by
        rw [hn, hd]
        rfl
      dsimp only at h
      split at h
      · cases h
        exact .hand f key rest d so peek hs hd rfl rfl hn'
      · split at h
        · cases h
          exact .hand f key rest _ so peek hs hd (by dsimp only; split <;> rfl) rfl hn'
        · cases h
          exact .hand f key rest _ so peek hs hd rfl rfl hn'

theorem roundTurn_of_step (h : selectStep s a = some t) : RoundTurn s a t := by
  cases a with
  | add p =>
    obtain ⟨-,h⟩ := Option.ite_none_left_eq_some.mp h
    cases h
    exact .aside [] rfl (by unfold SelectServer.add; dsimp only; split <;> rfl)
      (fun _ key fd hf => .inl (SelectServer.finds_add hf)) fun _ => rfl
  | remove p =>
    obtain ⟨-,h⟩ := Option.ite_none_left_eq_some.mp h
    cases h
    exact .aside _ rfl (by unfold SelectServer.remove; dsimp only; split <;> rfl)
      (fun _ key fd hf => SelectServer.finds_remove hf) fun _ => rfl
  | change p dispatcher =>
    obtain ⟨-,h⟩ := Option.ite_none_left_eq_some.mp h
    cases h
    exact .aside [] rfl rfl (fun hk key fd hf => .inl (SelectServer.finds_change hk hf)) fun _ => rfl
  | wait cmsWait processIo =>
    simp only [selectStep] at h
    split at h
    · rename_i hc
      cases h
      exact .leave (.inl (by rw [hc]; rfl)) rfl rfl fun _ => rfl
    · cases h
  | turn order =>
    simp only [selectStep] at h
    split at h
    · rename_i hc
      exact roundTurn_of_turn hc h
    · cases h
  | select answer =>
    simp only [selectStep] at h
    split at h
    · rename_i hc
      exact roundTurn_of_select hc h
    · cases h
  | next so peek =>
    simp only [selectStep] at h
    split at h
    · rename_i hc
      exact roundTurn_of_next hc h
    · rename_i f hc
      cases h
      exact .leave (.inr (.inr ⟨f,by rw [hc]; rfl⟩)) rfl rfl fun g => by simp only [noteRound, hc]
    · cases h
  | resume =>
    simp only [selectStep] at h
    split at h
    · rename_i hc
      cases h
      exact .aside [] (by rw [hc]; rfl) rfl (fun _ key fd hf => .inl hf) fun _ => rfl
    · cases h

end

/-- ProcessEvents comes to events exactly if it is given something to read or to write. -/
theorem processEvents_eq_zero_iff (dispatcher : Dispatcher) (readable writeable : Bool) (so : Except Errno Errno)
    (peek : Except Errno Nat) :
    (processEvents dispatcher readable writeable false (readable || writeable) so peek).1 = 0 ↔
      readable = false ∧ writeable = false := by
  by_cases hnone : readable = false ∧ writeable = false
  · obtain ⟨rfl,rfl⟩ := hnone
    simp [processEvents, pendingError]
  · refine iff_of_false ?_ hnone
    dsimp only [processEvents]
    generalize pendingError false (readable || writeable) so = e
    generalize dispatcher.isDescriptorClosed peek = closed
    generalize has dispatcher.getRequestedEvents deAccept = accepts
    generalize has dispatcher.getRequestedEvents deConnect = connects
    by_cases he : e = 0 <;> cases readable <;> cases writeable <;> cases closed <;> cases accepts <;> cases connects <;>
      simp [he, deClose, deAccept, deRead, deConnect, deWrite] at hnone ⊢

/-- The calls of a round: the first with a descriptor has what was reported of it, the later ones have nothing. -/
def Handed (fdsRead fdsWrite : FdSet) : List Handover → Prop
  | [] => True
  | c :: earlier =>
    c.readable = decide (c.fd ∈ fdsRead ∧ c.fd ∉ earlier.map Handover.fd) ∧
      c.writeable = decide (c.fd ∈ fdsWrite ∧ c.fd ∉ earlier.map Handover.fd) ∧
      (c.ff = 0 ↔ c.readable = false ∧ c.writeable = false) ∧ Handed fdsRead fdsWrite earlier

namespace Handed
variable {fdsRead fdsWrite : FdSet} {calls : List Handover} {c : Handover}

/-- A call that comes to events is the first with its descriptor. -/
theorem first {earlier : List Handover} (h : Handed fdsRead fdsWrite (c :: earlier)) (hff : c.ff ≠ 0) :
    c.fd ∉ earlier.map Handover.fd ∧ c.readable = decide (c.fd ∈ fdsRead) ∧
      c.writeable = decide (c.fd ∈ fdsWrite) := by
  obtain ⟨hr,hw,hz,-⟩ := h
  by_cases hm : c.fd ∈ earlier.map Handover.fd
  · simp only [hm, not_true, and_false, decide_false] at hr hw
    exact absurd (hz.mpr ⟨hr,hw⟩) hff
  · simp only [hm, not_false_iff, and_true] at hr hw
    exact ⟨hm,hr,hw⟩

theorem of_mem (h : Handed fdsRead fdsWrite calls) (hc : c ∈ calls) (hff : c.ff ≠ 0) :
    c.readable = decide (c.fd ∈ fdsRead) ∧ c.writeable = decide (c.fd ∈ fdsWrite) := by
  induction calls with
  | nil => exact absurd hc List.not_mem_nil
  | cons e earlier ih =>
    rcases List.mem_cons.mp hc with rfl | hc
    · exact (h.first hff).2
    · exact ih h.2.2.2 hc

theorem nodup (h : Handed fdsRead fdsWrite calls) :
    ((calls.filter fun c => decide (c.ff ≠ 0)).map Handover.fd).Nodup := by
  induction calls with
  | nil => exact List.nodup_nil
  | cons e earlier ih =>
    have hrest := ih h.2.2.2
    rw [List.filter_cons]
    split
    · rename_i hff
      refine List.nodup_cons.mpr ⟨fun hm => ?_,hrest⟩
      exact (h.first (of_decide_eq_true hff)).1 ((List.filter_sublist.map _).subset hm)
    · exact hrest

/-- A descriptor that was reported and has been come to has got its events. -/
theorem exists_of_mem (h : Handed fdsRead fdsWrite calls) {fd : Fd} (hfd : fd ∈ fdsRead ∨ fd ∈ fdsWrite)
    (hm : fd ∈ calls.map Handover.fd) : ∃ c ∈ calls, c.fd = fd ∧ c.ff ≠ 0 := by
  induction calls with
  | nil => exact absurd hm List.not_mem_nil
  | cons e earlier ih =>
    by_cases hearlier : fd ∈ earlier.map Handover.fd
    · obtain ⟨c,hc,hcfd⟩ := ih h.2.2.2 hearlier
      exact ⟨c,List.mem_cons_of_mem _ hc,hcfd⟩
    · obtain rfl : fd = e.fd := (List.mem_cons.mp hm).resolve_right hearlier
      refine ⟨e,List.mem_cons_self,rfl,fun hff => ?_⟩
      obtain ⟨hr,hw,hz,-⟩ := h
      obtain ⟨hr',hw'⟩ := hz.mp hff
      rw [hr', eq_comm, decide_eq_false_iff_not] at hr
      rw [hw', eq_comm, decide_eq_false_iff_not] at hw
      exact hfd.elim (fun hfd => hr ⟨hfd,hearlier⟩) fun hfd => hw ⟨hfd,hearlier⟩

end Handed

/-- The sets that the round has left are the reported ones without the descriptors come to, and what is reported was
asked for at the collection. -/
structure Handing (s : SelectState) (g : SelectRound) : Prop where
  calls : Handed g.reportedRead g.reportedWrite g.handovers
  reads : ∀ fd ∈ g.reportedRead, g.collected.Requests (deRead ||| deAccept) fd
  writes : ∀ fd ∈ g.reportedWrite, g.collected.Requests (deWrite ||| deConnect) fd
  selecting : ∀ f, s.control.stage = .selecting f → g.handovers = [] ∧
    (∀ fd ∈ f.fdsRead, g.collected.Requests (deRead ||| deAccept) fd) ∧
    ∀ fd ∈ f.fdsWrite, g.collected.Requests (deWrite ||| deConnect) fd
  dispatching : ∀ f rest, s.control.stage = .dispatching f rest → ∀ fd,
    (fd ∈ f.fdsRead ↔ fd ∈ g.reportedRead ∧ fd ∉ g.handovers.map Handover.fd) ∧
    (fd ∈ f.fdsWrite ↔ fd ∈ g.reportedWrite ∧ fd ∉ g.handovers.map Handover.fd)

def RoundStage.rest : RoundStage → List Key
  | .away | .selecting _ => []
  | .dispatching _ rest => rest

/-- What the collection found is there still or erased since, and what was reported is handed over or to be come to. -/
structure Pending (s : SelectState) (g : SelectRound) : Prop where
  kept : ∀ key fd, g.collected.Finds key fd → s.server.Finds key fd ∨ key ∈ g.erased
  selecting : ∀ f, s.control.stage = .selecting f → ∀ fd, fd ∈ f.fdsRead ∨ fd ∈ f.fdsWrite →
    ∃ key ∈ s.server.currentDispatcherKeys, g.collected.Finds key fd
  reported : ∀ fd, fd ∈ g.reportedRead ∨ fd ∈ g.reportedWrite → fd ∈ g.handovers.map Handover.fd ∨
    ∃ key, g.collected.Finds key fd ∧ (key ∈ g.erased ∨ key ∈ s.control.stage.rest)

section
variable {s t : SelectState} {a : SelectAction} {g : SelectRound}

theorem RoundTurn.handing (h : RoundTurn s a t) (hi : Handing s g) : Handing t (noteRound s a t g) := by
  cases h with
  | aside erased hstage hk hf hn =>
    rw [hn]
    exact ⟨hi.calls,hi.reads,hi.writes,fun f hs => hi.selecting f (hstage ▸ hs),
      fun f rest hs => hi.dispatching f rest (hstage ▸ hs)⟩
  | leave hs ht hf hn =>
    rw [hn]
    refine ⟨hi.calls,hi.reads,hi.writes,fun f hf => ?_,fun f rest hf => ?_⟩ <;>
    · rw [ht] at hf
      cases hf
  | collect f order c ho hc hk hf ht hn =>
    rw [hn]
    have hasks := SelectServer.asksFor_collect ho hc
    refine ⟨trivial,by simp,by simp,fun f' hf' => ?_,fun f' rest hf' => ?_⟩ <;>
      rw [ht] at hf' <;> cases hf'
    exact ⟨rfl,hasks.reads,hasks.writes⟩
  | report f fdsRead fdsWrite hs hread hwrite hf ht hn =>
    rw [hn]
    obtain ⟨hnone,hreads,hwrites⟩ := hi.selecting f hs
    refine ⟨by rw [hnone]; trivial,fun fd hfd => hreads fd (hread hfd),fun fd hfd => hwrites fd (hwrite hfd),
      fun f' hf' => ?_,fun f' rest hf' fd => ?_⟩ <;>
      rw [ht] at hf' <;> cases hf'
    simp [hnone]
  | skip f key rest hs hd hf ht hn =>
    rw [hn]
    refine ⟨hi.calls,hi.reads,hi.writes,fun f' hf' => ?_,fun f' rest' hf' => ?_⟩ <;>
      rw [ht] at hf' <;> cases hf'
    exact hi.dispatching f _ hs
  | hand f key rest d so peek hs hd hf ht hn =>
    rw [hn]
    have hsets := hi.dispatching f _ hs
    refine ⟨⟨?_,?_,processEvents_eq_zero_iff ..,hi.calls⟩,hi.reads,hi.writes,fun f' hf' => ?_,
      fun f' rest' hf' fd => ?_⟩
    · exact decide_eq_decide.mpr (hsets d.getDescriptor).1
    · exact decide_eq_decide.mpr (hsets d.getDescriptor).2
    · rw [ht] at hf'
      cases hf'
    · rw [ht] at hf'
      cases hf'
      simp only [Finset.mem_erase, List.map_cons, List.mem_cons, not_or, (hsets fd).1, (hsets fd).2]
      constructor <;> tauto

theorem RoundTurn.pending (h : RoundTurn s a t) (hkeep : KeepsDescriptors s a) (hi : Pending s g) :
    Pending t (noteRound s a t g) := by
  cases h with
  | aside erased hstage hk hf hn =>
    rw [hn]
    refine ⟨fun key fd hfind => ?_,fun f hs => hk ▸ hi.selecting f (hstage ▸ hs),fun fd hfd => ?_⟩
    · rcases hi.kept key fd hfind with h | h
      · exact (hf hkeep key fd h).imp_right (List.mem_append_left _)
      · exact .inr (List.mem_append_right _ h)
    · rw [hstage]
      exact (hi.reported fd hfd).imp_right fun hkey => hkey.imp fun key h =>
        ⟨h.1,h.2.imp_left (List.mem_append_right _)⟩
  | leave hs ht hf hn =>
    rw [hn]
    have hrest : s.control.stage.rest = [] := by
      rcases hs with hs | ⟨f,hs⟩ | ⟨f,hs⟩ <;> rw [hs] <;> rfl
    refine ⟨hf ▸ hi.kept,fun f hf => ?_,fun fd hfd => ?_⟩
    · rw [ht] at hf
      cases hf
    · rw [ht, RoundStage.rest, ← hrest]
      exact hi.reported fd hfd
  | collect f order c ho hc hk hf ht hn =>
    rw [hn]
    have hasks := SelectServer.asksFor_collect ho hc
    refine ⟨fun key fd hfind => .inl (hf ▸ hfind),fun f' hf' => ?_,by simp⟩
    rw [ht] at hf'
    cases hf'
    exact hk ▸ hasks.found
  | report f fdsRead fdsWrite hs hread hwrite hf ht hn =>
    rw [hn]
    refine ⟨hf ▸ hi.kept,fun f' hf' => ?_,fun fd hfd => ?_⟩
    · rw [ht] at hf'
      cases hf'
    · obtain ⟨key,hkey,hfind⟩ := hi.selecting f hs fd (hfd.imp (hread ·) (hwrite ·))
      exact .inr ⟨key,hfind,.inr (by rw [ht]; exact hkey)⟩
  | skip f key rest hs hd hf ht hn =>
    rw [hn]
    refine ⟨hf ▸ hi.kept,fun f' hf' => ?_,fun fd hfd => ?_⟩
    · rw [ht] at hf'
      cases hf'
    · refine (hi.reported fd hfd).imp_right ?_
      rintro ⟨k,hfind,hk⟩
      refine ⟨k,hfind,?_⟩
      rw [hs, RoundStage.rest, List.mem_cons] at hk
      rw [ht]
      rcases hk with hk | rfl | hk
      · exact .inl hk
      · refine .inl ((hi.kept k fd hfind).resolve_left fun h => ?_)
        rw [SelectServer.Finds, hd] at h
        cases h
      · exact .inr hk
  | hand f key rest d so peek hs hd hf ht hn =>
    rw [hn]
    refine ⟨hf ▸ hi.kept,fun f' hf' => ?_,fun fd hfd => ?_⟩
    · rw [ht] at hf'
      cases hf'
    · rcases hi.reported fd hfd with hdone | ⟨k,hfind,hk⟩
      · exact .inl (List.mem_cons_of_mem _ hdone)
      · rw [hs, RoundStage.rest, List.mem_cons] at hk
        rw [ht]
        rcases hk with hk | rfl | hk
        · exact .inr ⟨k,hfind,.inl hk⟩
        · rcases hi.kept k fd hfind with h | h
          · rw [SelectServer.Finds, hd, Option.map_some, Option.some.injEq] at h
            exact .inl (List.mem_cons.mpr (.inl h.symm))
          · exact .inr ⟨k,hfind,.inl h⟩
        · exact .inr ⟨k,hfind,.inr hk⟩

end

theorem handing {p : SelectState × SelectRound} (h : roundMachine.Reachable Machine.Free p) : Handing p.1 p.2 := by
  apply h.rule (I := fun p => Handing p.1 p.2)
  · rintro ⟨s,g⟩ ⟨⟨p,afd,-,rfl⟩,rfl⟩
    refine ⟨trivial,by simp [SelectRound.empty],by simp [SelectRound.empty],fun f hf => ?_,fun f rest hf => ?_⟩ <;> cases hf
  · intro u a v hi _ he
    obtain ⟨he,hg⟩ := Machine.recorded_step he
    rw [hg]
    exact (roundTurn_of_step he).handing hi

theorem pending {p : SelectState × SelectRound} (h : roundMachine.Reachable (fun p a => KeepsDescriptors p.1 a) p) :
    Pending p.1 p.2 := by
  apply h.rule (I := fun p => Pending p.1 p.2)
  · rintro ⟨s,g⟩ ⟨⟨p,afd,-,rfl⟩,rfl⟩
    refine ⟨fun key fd hf => ?_,fun f hf => ?_,by simp [SelectRound.empty]⟩ <;> cases hf
  · intro u a v hi hk he
    obtain ⟨he,hg⟩ := Machine.recorded_step he
    rw [hg]
    exact (roundTurn_of_step he).pending hk hi

/-- In a round no descriptor's dispatcher gets events twice, and what it gets is what select reported of the descriptor,
which a registered dispatcher had asked for when the round's descriptors were collected. -/
theorem events_once_a_round {p : SelectState × SelectRound} (h : roundMachine.Reachable Machine.Free p) :
    ((p.2.handovers.filter fun c => decide (c.ff ≠ 0)).map Handover.fd).Nodup ∧
      ∀ c ∈ p.2.handovers, c.ff ≠ 0 →
        c.readable = decide (c.fd ∈ p.2.reportedRead) ∧ c.writeable = decide (c.fd ∈ p.2.reportedWrite) ∧
        (c.readable = true → p.2.collected.Requests (deRead ||| deAccept) c.fd) ∧
        (c.writeable = true → p.2.collected.Requests (deWrite ||| deConnect) c.fd) := by
  have hi := handing h
  refine ⟨hi.calls.nodup,fun c hc hff => ?_⟩
  obtain ⟨hr,hw⟩ := hi.calls.of_mem hc hff
  refine ⟨hr,hw,fun hread => hi.reads c.fd ?_,fun hwrite => hi.writes c.fd ?_⟩
  · rw [hread] at hr
    exact of_decide_eq_true hr.symm
  · rw [hwrite] at hw
    exact of_decide_eq_true hw.symm

/-- Two dispatchers that read, of descriptors 5 and 6, beside the signaler. -/
private def reader (fd : Fd) : Option Dispatcher := some (.socket ⟨fd,false,2,0,.connected,deRead,none⟩)

/-- The second WaitSelect finds the keys of the first and adds them again; descriptor 5 is readable then, and the
handler of its events removes the dispatcher of descriptor 6, which is readable too. -/
private def secondRound : List SelectAction :=
  [.change 7 (reader 5), .add 7, .change 8 (reader 6), .add 8, .wait (-1) true, .turn [⟨0,100⟩,⟨1,7⟩,⟨2,8⟩],
    .select (.ready {3} ∅), .next (.ok 0) (.ok 1), .next (.ok 0) (.ok 1), .next (.ok 0) (.ok 1), .next (.ok 0) (.ok 1),
    .turn [], .wait (-1) true, .turn [⟨0,100⟩,⟨1,7⟩,⟨2,8⟩], .select (.ready {5,6} ∅), .next (.ok 0) (.ok 1),
    .next (.ok 0) (.ok 1), .remove 8, .resume, .next (.ok 0) (.ok 1), .next (.ok 0) (.ok 1), .next (.ok 0) (.ok 1),
    .next (.ok 0) (.ok 1), .next (.ok 0) (.ok 1)]

/-- Descriptor 5 is come to twice and gets its events once. -/
theorem events_once_sample : ∃ p : SelectState × SelectRound,
    (p.2.handovers.map Handover.fd).count 5 = 2 ∧
      ((p.2.handovers.filter fun c => decide (c.ff ≠ 0)).map Handover.fd).Nodup := by
  have h : (roundMachine.run Machine.Free (⟨.start 100 3,.idle none⟩,.empty) secondRound).any
      (fun p => decide ((p.2.handovers.map Handover.fd).count 5 = 2)) = true := by
    decide +kernel
  have hstart : roundMachine.init (⟨.start 100 3,.idle none⟩,.empty) := ⟨⟨100,3,by decide,rfl⟩,rfl⟩
  obtain ⟨p,hp,hc⟩ := Machine.exists_reachable_of_run hstart h
  exact ⟨p,of_decide_eq_true hc,(events_once_a_round hp).1⟩

/-- When a round is over, every descriptor that select reported has got its events, unless a key that was collected
for it has been erased since the collection. -/
theorem round_is_complete {p : SelectState × SelectRound}
    (h : roundMachine.Reachable (fun p a => KeepsDescriptors p.1 a) p) (hover : p.1.control.stage = .away) {fd : Fd}
    (hfd : fd ∈ p.2.reportedRead ∨ fd ∈ p.2.reportedWrite) :
    (∃ c ∈ p.2.handovers, c.fd = fd ∧ c.ff ≠ 0) ∨ ∃ key ∈ p.2.erased, p.2.collected.Finds key fd := by
  rcases (pending h).reported fd hfd with hdone | ⟨key,hfind,hkey⟩
  · exact .inl ((handing (h.mono fun _ _ _ => trivial)).calls.exists_of_mem hfd hdone)
  · rw [hover, RoundStage.rest] at hkey
    exact .inr ⟨key,hkey.resolve_right List.not_mem_nil,hfind⟩

/-- Descriptor 6 is reported, and its dispatcher is removed before it is come to. -/
theorem round_is_complete_sample : ∃ p : SelectState × SelectRound, 6 ∈ p.2.reportedRead ∧
    ((∃ c ∈ p.2.handovers, c.fd = 6 ∧ c.ff ≠ 0) ∨ ∃ key ∈ p.2.erased, p.2.collected.Finds key 6) := by
  have h : (roundMachine.run (fun p a => KeepsDescriptors p.1 a) (⟨.start 100 3,.idle none⟩,.empty) secondRound).any
      (fun p => decide (6 ∈ p.2.reportedRead) && decide (p.1.control.stage = .away)) = true := by
    decide +kernel
  have hstart : roundMachine.init (⟨.start 100 3,.idle none⟩,.empty) := ⟨⟨100,3,by decide,rfl⟩,rfl⟩
  obtain ⟨p,hp,hc⟩ := Machine.exists_reachable_of_run hstart h
  obtain ⟨hm,hover⟩ := Bool.and_eq_true_iff.mp hc
  have hread : 6 ∈ p.2.reportedRead := of_decide_eq_true hm
  exact ⟨p,hread,round_is_complete hp (of_decide_eq_true hover) (.inl hread)⟩

end UServer.Net
