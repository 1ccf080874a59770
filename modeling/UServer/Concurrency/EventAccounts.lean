import UServer.Concurrency.Event
import UServer.Library.History
import UServer.Library.Latch

/-! An auto-reset Event as a latch: Set raises it, Reset lowers it, and a Wait that finds it set takes it. The record of a
run is the log of these, in the order in which the mutex lets them happen. -/
namespace UServer.Concurrency
open Library

/-- What a step does to event_status_, a Wait with the mutex held taking it as soon as it finds it set. -/
def Event.logged {ι : Type*} (s : Event ι) (a : EventAction ι) : List Latch.Op :=
  match a with
  | .step i =>
    match s.threads i with
    | .setLocked => [.raise]
    | .resetLocked => [.lower]
    | .testing _ => if s.eventStatus then [.take] else []
    | _ => []
  | _ => []

def Event.note {ι : Type*} (s : Event ι) (a : EventAction ι) (_ : Event ι) (log : List Latch.Op) : List Latch.Op :=
  s.logged a ++ log

/-- An Event with its log, the newest entry first. -/
def loggedEventMachine (ι : Type*) [DecidableEq ι] : Machine (Event ι × List Latch.Op) (EventAction ι) :=
  (eventMachine ι).recorded [] Event.note

/-- Every Wait is one without give_up_after. -/
def EventAction.Untimed {ι : Type*} : EventAction ι → Prop
  | .call _ (.waitFor _) => False
  | _ => True

instance {ι : Type*} : DecidablePred (EventAction.Untimed (ι := ι))
  | .call _ c => match c with
    | .waitFor _ => inferInstanceAs (Decidable False)
    | .set | .reset | .wait => inferInstanceAs (Decidable True)
  | .tick _ | .step _ | .timeout _ | .spurious _ => inferInstanceAs (Decidable True)

namespace Event

/-- What the log says of the event: how many Waits have returned for how many Sets, that the entry before each return is
the Set it consumed, that it is set exactly while the newest entry is a Set, and who then waits or looks at it. -/
structure Accounts {ι : Type*} [DecidableEq ι] (s : Event ι) (log : List Latch.Op) : Prop where
  returned : s.returns.length ≤ s.sets + s.initiallySignaled.toNat
  sets : log.count .raise = s.sets
  returns : log.count .take = s.returns.length
  paid : ∀ newer older, log = newer ++ .take :: older →
    (∃ rest, older = .raise :: rest) ∨ older = [] ∧ s.initiallySignaled = true
  available : s.eventStatus = true ↔ (∃ rest, log = .raise :: rest) ∨ log = [] ∧ s.initiallySignaled = true
  notified : s.eventStatus = true → s.monitor.waiting = []
  served : s.eventStatus = true → ∀ i w, s.threads i = .testing w →
    ∃ t, s.step (.step i) = some t ∧ t.returns = s.returns ++ [⟨w,true,s.nanos,true⟩]

/-- The log of a run is the log of a latch, and the event an auto-reset one. -/
structure Latched {ι : Type*} (s : Event ι) (log : List Latch.Op) : Prop where
  flag : Latch.flag s.initiallySignaled log = s.eventStatus
  served : Latch.Served s.initiallySignaled log
  sets : log.count .raise = s.sets
  takes : log.count .take = s.returns.countP WaitReturn.result

end Event

/-- In none of the places of a Wait with a deadline. -/
def EventPc.Untimed : EventPc → Prop
  | .entered w | .testing w | .parked w => w.giveUpAfter = none
  | .gaveUp _ _ _ => False
  | _ => True

theorem EventPc.untimed_of_locked {pc next : EventPc} (h : pc.Untimed) (hl : pc.locked = some next) : next.Untimed := by
  cases pc with
  | set | reset =>
    cases hl
    trivial
  | entered w | parked w =>
    cases hl
    exact h
  | _ => cases hl

namespace Event
variable {ι : Type*} {s t : Event ι} {a : EventAction ι} {i : ι} {log : List Latch.Op}

theorem logged_of_locked {pc : EventPc} (hl : (s.threads i).locked = some pc) : s.logged (.step i) = [] := by
  cases hi : s.threads i with
  | setLocked | resetLocked | testing w =>
    rw [hi] at hl
    cases hl
  | _ => simp [logged, hi]

/-- A step that the log does not show. -/
private theorem Latched.quiet (h : s.Latched log) (hl : s.logged a = []) (hi : t.initiallySignaled = s.initiallySignaled)
    (he : t.eventStatus = s.eventStatus) (hs : t.sets = s.sets)
    (hr : t.returns.countP WaitReturn.result = s.returns.countP WaitReturn.result) : t.Latched (s.logged a ++ log) := by
  rw [hl, List.nil_append]
  exact ⟨hi ▸ he ▸ h.flag,hi ▸ h.served,hs ▸ h.sets,hr ▸ h.takes⟩

variable [DecidableEq ι]

theorem Latched.step (h : s.Latched log) (hm : s.manualReset = false) (he : s.step a = some t) :
    t.Latched (s.logged a ++ log) := by
  cases step_turn he with
  | tick | call | timeout | spurious => exact h.quiet rfl rfl rfl rfl rfl
  | lock hl => exact h.quiet (logged_of_locked hl) rfl rfl rfl rfl
  | leave hi => exact h.quiet (by simp [logged, hi]) rfl rfl rfl rfl
  | park hi hs => exact h.quiet (by simp [logged, hi, hs]) rfl rfl rfl rfl
  | refuse hi hs => exact h.quiet (by simp [logged, hi, hs]) rfl rfl rfl (by simp [settle])
  | gaveUp hi => exact h.quiet (by simp [logged, hi]) rfl rfl rfl (by simp [settle])
  | @set i hi =>
    have hl : s.logged (.step i) = [.raise] := by simp [logged, hi]
    rw [hl]
    exact ⟨rfl,⟨by simp,h.served⟩,by simp [h.sets],by simpa [goto] using h.takes⟩
  | @reset i hi =>
    have hl : s.logged (.step i) = [.lower] := by simp [logged, hi]
    rw [hl]
    exact ⟨rfl,⟨by simp,h.served⟩,by simpa [goto] using h.sets,by simpa [goto] using h.takes⟩
  | @take i w hi hs =>
    have hl : s.logged (.step i) = [.take] := by simp [logged, hi, hs]
    rw [hl]
    refine ⟨by simp [hm],⟨fun _ => h.flag.trans hs,h.served⟩,by simpa [settle, goto] using h.sets,?_⟩
    simp [settle, h.takes]

theorem manualReset_step (he : s.step a = some t) : t.manualReset = s.manualReset := by
  cases step_turn he <;> rfl

theorem initiallySignaled_step (he : s.step a = some t) : t.initiallySignaled = s.initiallySignaled := by
  cases step_turn he <;> rfl

/-- No Wait has a deadline, so that each that returned returned true. -/
structure Unhurried (s : Event ι) : Prop where
  threads : ∀ i, (s.threads i).Untimed
  returns : ∀ r ∈ s.returns, r.result = true

private theorem Unhurried.goto (h : s.Unhurried) (pc : EventPc) (hp : pc.Untimed)
    (ht : t.threads = Function.update s.threads i pc) (hr : ∀ r ∈ t.returns, r.result = true) : t.Unhurried := by
  refine ⟨?_,hr⟩
  rw [ht]
  exact (Function.forall_update_iff s.threads fun _ p => p.Untimed).mpr ⟨hp,fun j _ => h.threads j⟩

theorem Unhurried.step (h : s.Unhurried) (ha : a.Untimed) (he : s.step a = some t) : t.Unhurried := by
  cases step_turn he with
  | tick | spurious => exact ⟨h.threads,h.returns⟩
  | @call i c =>
    cases c with
    | waitFor d => exact ha.elim
    | set => exact h.goto .set trivial rfl h.returns
    | reset => exact h.goto .reset trivial rfl h.returns
    | wait => exact h.goto (.entered ⟨none,s.nanos⟩) rfl rfl h.returns
  | @lock i pc _ hl => exact h.goto pc (EventPc.untimed_of_locked (h.threads i) hl) rfl h.returns
  | set | reset => exact h.goto .leaving trivial rfl h.returns
  | leave => exact h.goto .idle trivial rfl h.returns
  | take => exact h.goto .leaving trivial rfl (List.forall_mem_append.mpr ⟨h.returns,by simp⟩)
  | @park i w hi =>
    have hw := h.threads i
    rw [hi] at hw
    exact h.goto (.parked w) hw rfl h.returns
  | @refuse i w d hi _ hd =>
    have hw := h.threads i
    rw [hi, EventPc.Untimed, hd] at hw
    cases hw
  | @gaveUp i w left status m hi =>
    have hw := h.threads i
    rw [hi] at hw
    exact hw.elim
  | @timeout i d called hi =>
    have hw := h.threads i
    rw [hi] at hw
    cases hw

/-- The invariants of a run without deadlines and of its log. -/
theorem latched_of_reachable {p : Event ι × List Latch.Op}
    (h : (loggedEventMachine ι).Reachable (fun _ a => a.Untimed) p) :
    p.1.Invariant ∧ p.1.Unhurried ∧ (p.1.manualReset = false → p.1.Latched p.2) := by
  apply h.rule (I := fun p => p.1.Invariant ∧ p.1.Unhurried ∧ (p.1.manualReset = false → p.1.Latched p.2))
  · rintro ⟨s,log⟩ ⟨⟨manualReset,initiallySignaled,nanos,rfl⟩,rfl⟩
    refine ⟨.start manualReset initiallySignaled nanos,⟨fun _ => trivial,by simp [Event.start]⟩,fun _ => ?_⟩
    exact ⟨rfl,trivial,rfl,rfl⟩
  · rintro p a q ⟨hv,hu,hl⟩ ha he
    obtain ⟨hs,hn⟩ := Machine.recorded_step he
    refine ⟨hv.step hs,hu.step ha hs,fun hm => ?_⟩
    have hp : p.1.manualReset = false := (manualReset_step hs).symm.trans hm
    exact hn ▸ (hl hp).step hp hs

/-- What follows a state has a longer log of an event of the same kind. -/
theorem log_append {ok : Event ι × List Latch.Op → EventAction ι → Prop} {p q : Event ι × List Latch.Op}
    (h : (loggedEventMachine ι).Reaches ok p q) :
    (∃ new, q.2 = new ++ p.2) ∧ q.1.manualReset = p.1.manualReset ∧ q.1.initiallySignaled = p.1.initiallySignaled := by
  apply h.rule (R := fun q => (∃ new, q.2 = new ++ p.2) ∧ q.1.manualReset = p.1.manualReset ∧
    q.1.initiallySignaled = p.1.initiallySignaled)
  · exact ⟨⟨[],rfl⟩,rfl,rfl⟩
  · rintro u a v - ⟨⟨new,hn⟩,hm,hi⟩ - he
    obtain ⟨hs,hv⟩ := Machine.recorded_step he
    refine ⟨⟨u.1.logged a ++ new,?_⟩,(manualReset_step hs).trans hm,(initiallySignaled_step hs).trans hi⟩
    rw [hv, note, hn, List.append_assoc]

theorem Latched.accounts (h : s.Latched log) (hv : s.Invariant) (hu : s.Unhurried) : s.Accounts log := by
  have hc : s.returns.countP WaitReturn.result = s.returns.length := List.countP_eq_length.mpr hu.returns
  refine ⟨?_,h.sets,h.takes.trans hc,fun newer older hl => h.served.paid hl,h.flag ▸ Latch.flag_iff,?_,?_⟩
  · have ht := h.served.count_take_le
    rw [h.sets, h.takes, hc] at ht
    omega
  · intro hs
    by_contra hw
    simp [hv.unset hw] at hs
  · intro hs i w hi
    refine ⟨s.test i w,?_,by simp [Event.test, hs, Event.settle]⟩
    simp [Event.step, Event.stepThread, hi]

end Event

/-- In every run of Set, Reset and untimed Wait on an auto-reset Event the log accounts for every return, and an event
that is set stays set until a Wait takes it or a Reset cancels it. -/
theorem event_accounts {ι : Type*} [DecidableEq ι] {p q : Event ι × List Latch.Op}
    (hp : (loggedEventMachine ι).Reachable (fun _ a => a.Untimed) p) (hm : p.1.manualReset = false)
    (hq : (loggedEventMachine ι).Reaches (fun _ a => a.Untimed) p q) :
    p.1.Accounts p.2 ∧ ∃ new, q.2 = new ++ p.2 ∧
      (p.1.eventStatus = true → .take ∉ new → .lower ∉ new → q.1.eventStatus = true) := by
  obtain ⟨hv,hu,hl⟩ := Event.latched_of_reachable hp
  refine ⟨(hl hm).accounts hv hu,?_⟩
  obtain ⟨⟨new,hn⟩,hqm,hqi⟩ := Event.log_append hq
  have hr : (loggedEventMachine ι).Reachable (fun _ a => a.Untimed) q := by
    obtain ⟨s,hs,hr⟩ := hp
    exact ⟨s,hs,hr.trans hq⟩
  have hlq := (Event.latched_of_reachable hr).2.2 (hqm.trans hm)
  refine ⟨new,hn,fun hs ht hlow => ?_⟩
  rw [← hlq.flag, hn, hqi]
  exact Latch.flag_append ((hl hm).flag.trans hs) ht hlow

/-- A thread waits, another one sets the event, and the first one takes it. -/
theorem event_accounts_run : ∃ p : Event ℕ × List Latch.Op,
    p.2 = [.take,.raise] ∧ p.1.Accounts p.2 ∧ p.1.returns.length = 1 := by
  have hinit : (loggedEventMachine ℕ).init (.start false false 0,[]) := ⟨⟨false,false,0,rfl⟩,rfl⟩
  have hrun : ((loggedEventMachine ℕ).run (fun _ a => a.Untimed) (.start false false 0,[])
      [.call 0 .wait, .step 0, .step 0, .call 1 .set, .step 1, .step 1, .step 1, .step 0, .step 0, .step 0]).any
      (fun p => decide (p.1.manualReset = false ∧ p.2 = [.take,.raise] ∧ p.1.returns.length = 1)) = true := by
    decide +kernel
  obtain ⟨p,hp,hd⟩ := Machine.exists_reachable_of_run hinit hrun
  obtain ⟨hm,hl,hr⟩ := of_decide_eq_true hd
  exact ⟨p,hl,(event_accounts hp hm .refl).1,hr⟩

end UServer.Concurrency
