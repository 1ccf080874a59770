import UServer.Concurrency.Event
import UServer.Concurrency.WaitTimeout
import UServer.Library.History

/-! What Wait(give_up_after) promises against what its deadline makes of it: for a duration it is the epoch that counts,
not the call, and for ever is an invalid timespec, so that a Thread over a NullSocketServer spins. -/
namespace UServer.Concurrency
open Library

/-- False comes no earlier than the duration after the call and with the event not set, and never from for ever. -/
structure WaitReturn.Honest (r : WaitReturn) : Prop where
  late : r.result = false → ∀ d, r.call.giveUpAfter = some d → 0 ≤ d →
    r.call.called + d * 1000000 ≤ r.left ∧ r.status = false
  forever : r.call.giveUpAfter = some kForever → r.result = true

/-- The deadline is no earlier than it should be: there is none to make, or it is over, or the call was at the epoch. -/
def WaitCall.Fair (w : WaitCall) (nanos : ℕ) : Prop :=
  match w.giveUpAfter with
  | none => True
  | some d => d ≠ kForever ∧ (0 < d → w.called = 0 ∨ w.called + d * 1000000 ≤ nanos)

namespace Event
variable {ι : Type*} [DecidableEq ι]

/-- Every Wait was honest, and those that returned true took the event after a Set. -/
structure Honest (s : Event ι) : Prop where
  returns : ∀ r ∈ s.returns, r.Honest
  taken : s.manualReset = false → s.returns.countP WaitReturn.result ≤ s.sets + s.initiallySignaled.toNat

/-- A Wait that finds the event not set has a fair deadline. -/
def Sound (s : Event ι) (a : EventAction ι) : Prop :=
  match a with
  | .step i =>
    match s.threads i with
    | .testing w => s.eventStatus = false → w.Fair s.nanos
    | _ => True
  | _ => True

end Event

/-- What a thread inside a Wait knows of its deadline. -/
def EventPc.Truthful (nanos : ℕ) : EventPc → Prop
  | .parked w => w.Fair nanos
  | .gaveUp w left status => WaitReturn.Honest ⟨w,false,left,status⟩
  | _ => True

theorem WaitCall.Fair.mono {w : WaitCall} {n m : ℕ} (h : w.Fair n) (hnm : n ≤ m) : w.Fair m := by
  unfold WaitCall.Fair at *
  split at h
  · trivial
  · refine ⟨h.1,fun hd => (h.2 hd).imp_right fun hn => ?_⟩
    omega

theorem EventPc.Truthful.mono {pc : EventPc} {n m : ℕ} (h : pc.Truthful n) (hnm : n ≤ m) : pc.Truthful m := by
  cases pc with
  | parked w => exact WaitCall.Fair.mono h hnm
  | gaveUp w left status => exact h
  | _ => trivial

theorem EventPc.truthful_of_locked {pc next : EventPc} {n : ℕ} (h : pc.locked = some next) : next.Truthful n := by
  cases pc with
  | set | reset | entered w | parked w =>
    cases h
    trivial
  | _ => cases h

namespace Event

structure Truthful {ι : Type*} (s : Event ι) : Prop where
  threads : ∀ i, (s.threads i).Truthful s.nanos
  returns : ∀ r ∈ s.returns, r.Honest

namespace Truthful
variable {ι : Type*} {s t : Event ι} {i : ι}

/-- A fair deadline passes late enough, and only over a thread that no Set has woken. -/
theorem late (h : s.Truthful) (hv : s.Invariant) {d : ℤ} {called : ℕ} (hi : s.threads i = .parked ⟨some d,called⟩)
    (hw : i ∈ s.monitor.waiting) (hp : (Timespec.ofMillis d).Passed s.nanos) :
    WaitReturn.Honest ⟨⟨some d,called⟩,false,s.nanos,s.eventStatus⟩ := by
  have hf := h.threads i
  rw [hi] at hf
  have hc := hv.called i ⟨some d,called⟩ (by rw [hi]; rfl)
  refine ⟨fun _ d' hd h0 => ?_,fun hk => absurd (Option.some_inj.mp hk) hf.1⟩
  cases Option.some_inj.mp hd
  refine ⟨?_,hv.unset (List.ne_nil_of_mem hw)⟩
  have hpd := (Timespec.passed_ofMillis_iff h0 _).mp hp
  have hlate := hf.2
  dsimp only at hlate hc ⊢
  omega

variable [DecidableEq ι]

/-- A step of one thread that adds honest returns. -/
private theorem goto (h : s.Truthful) (pc : EventPc) (hp : pc.Truthful s.nanos)
    (ht : t.threads = Function.update s.threads i pc) (hn : t.nanos = s.nanos) {new : List WaitReturn} (hr : t.returns = s.returns ++ new) (hh : ∀ r ∈ new, r.Honest) :
    t.Truthful where
  threads := by
    rw [ht, hn]
    exact (Function.forall_update_iff s.threads fun _ p => p.Truthful s.nanos).mpr ⟨hp,fun j _ => h.threads j⟩
  returns := by
    rw [hr]
    exact List.forall_mem_append.mpr ⟨h.returns,hh⟩

/-- Without a new return. -/
private theorem move (h : s.Truthful) (pc : EventPc) (hp : pc.Truthful s.nanos)
    (ht : t.threads = Function.update s.threads i pc) (hn : t.nanos = s.nanos) (hr : t.returns = s.returns) : t.Truthful :=
  h.goto pc hp ht hn (hr.trans (List.append_nil _).symm) (by simp)

theorem step (h : s.Truthful) (hv : s.Invariant) {a : EventAction ι} (hs : s.Sound a) (he : s.step a = some t) :
    t.Truthful := by
  cases step_turn he with
  | tick => exact ⟨fun j => (h.threads j).mono (Nat.le_add_right _ _),h.returns⟩
  | @call i c =>
    refine h.move (c.enter s.nanos) ?_ rfl rfl rfl
    cases c with
    | set | reset | wait | waitFor d => trivial
  | @lock i pc _ hl => exact h.move pc (EventPc.truthful_of_locked hl) rfl rfl rfl
  | set | reset => exact h.move .leaving trivial rfl rfl rfl
  | leave => exact h.move .idle trivial rfl rfl rfl
  | @take i w =>
    have hr : WaitReturn.Honest ⟨w,true,s.nanos,true⟩ := ⟨by simp,fun _ => rfl⟩
    exact h.goto .leaving trivial rfl rfl rfl (by simpa using hr)
  | @park i w hi hf =>
    simp only [Sound, hi] at hs
    exact h.move (.parked w) (hs hf) rfl rfl rfl
  | @refuse i w d hi hf hd hv =>
    simp only [Sound, hi] at hs
    have hw := hs hf
    rw [WaitCall.Fair, hd] at hw
    have hr : WaitReturn.Honest ⟨w,false,s.nanos,false⟩ := by
      refine ⟨fun _ d' hd' h0 => ?_,fun hk => ?_⟩
      · rw [hd, Option.some_inj] at hd'
        exact absurd (Timespec.valid_ofMillis (hd' ▸ h0)) hv
      · rw [hd, Option.some_inj] at hk
        exact absurd hk hw.1
    exact h.goto .leaving trivial rfl rfl rfl (by simpa using hr)
  | @gaveUp i w left status m hi =>
    have hr : WaitReturn.Honest ⟨w,false,left,status⟩ := by
      have hg := h.threads i
      rwa [hi] at hg
    exact h.goto .leaving trivial rfl rfl rfl (by simpa using hr)
  | @timeout i d called hi hw hp =>
    exact h.move (.gaveUp ⟨some d,called⟩ s.nanos s.eventStatus) (h.late hv hi hw hp) rfl rfl rfl
  | spurious => exact ⟨h.threads,h.returns⟩

end Truthful

variable {ι : Type*} [DecidableEq ι] {s : Event ι}

theorem honest_of_sound (h : (eventMachine ι).Reachable Sound s) : s.Honest := by
  have hi : s.Invariant ∧ s.Truthful := by
    apply h.rule (I := fun s => s.Invariant ∧ s.Truthful)
    · rintro u ⟨manualReset,initiallySignaled,nanos,rfl⟩
      exact ⟨.start manualReset initiallySignaled nanos,fun _ => trivial,by simp [Event.start]⟩
    · rintro u a v ⟨hv,ht⟩ ha he
      exact ⟨hv.step he,ht.step hv ha he⟩
  exact ⟨hi.2.returns,fun hm => (Nat.le_add_right _ _).trans (hi.1.taken hm)⟩

/-- Where the condition fails a run of that thread alone ends in a return that is not honest. -/
theorem unfair_breaks {i : ι} {w : WaitCall} (hi : s.threads i = .testing w) (hs : s.eventStatus = false)
    (hw : ¬ w.Fair s.nanos) : ∃ t, (eventMachine ι).Reaches Machine.Free s t ∧ ∃ r ∈ t.returns, ¬ r.Honest := by
  obtain ⟨giveUpAfter,called⟩ := w
  cases giveUpAfter with
  | none => exact absurd trivial hw
  | some d =>
    simp only [WaitCall.Fair, not_and_or, not_not, Classical.not_imp, not_or, not_le] at hw
    rcases hw with rfl | ⟨hd,hc,hn⟩
    · have hstep : s.step (.step i) = some (s.settle i ⟨⟨some kForever,called⟩,false,s.nanos,false⟩) := by
        simp [Event.step, Event.stepThread, hi, Event.test, hs, Timespec.not_valid_forever]
      refine ⟨s.settle i ⟨⟨some kForever,called⟩,false,s.nanos,false⟩,.single ⟨.step i,trivial,hstep⟩,_,
        List.mem_append_right _ (List.mem_singleton_self _),fun hh => ?_⟩
      cases hh.forever rfl
    · let late : ℕ := (d * 1000000).toNat - s.nanos
      have hv : (Timespec.ofMillis d).Valid := Timespec.valid_ofMillis hd.le
      have hp : (Timespec.ofMillis d).Passed (s.nanos + late) := by
        rw [Timespec.passed_ofMillis_iff hd.le]
        omega
      have hrun : ((eventMachine ι).run Machine.Free s [.step i, .tick late, .timeout i, .step i]).any
          (fun t => decide (⟨⟨some d,called⟩,false,s.nanos + late,false⟩ ∈ t.returns)) = true := by
        simp [Machine.run, Machine.Free, eventMachine, Event.step, Event.stepThread, hi, Event.test, hs, hv, Event.park,
          Event.timeout, Monitor.park, hp, Event.goto, Monitor.wake, Monitor.lock, Event.settle]
      obtain ⟨t,ht,hr⟩ := (Option.any_eq_true _ _).mp hrun
      refine ⟨t,Machine.reaches_of_run ht,_,of_decide_eq_true hr,fun hh => ?_⟩
      have hlate := (hh.late rfl d rfl hd.le).1
      dsimp only at hlate hn
      omega

end Event

/-- How often in a row Get without a timeout found an empty queue, with no WakeUp taken in between. -/
def noteIdle {ι : Type*} (s : State ι) (a : Action ι) (t : State ι) (looks : ℕ) : ℕ :=
  match a, s.loop with
  | .loop, .call _ _ => 0
  | .loop, .take _ =>
    match t.loop with
    | .check f _ => if f.cmsWait = kForever ∧ f.seen = [] then looks + 1 else 0
    | _ => 0
  | .loop, .park _ _ =>
    match s.ss with
    | .null true => 0
    | _ => looks
  | _, _ => looks

/-- A Thread made by Thread::Create, over a NullSocketServer. -/
def createMachine (ι : Type*) [DecidableEq ι] : Machine (State ι) (Action ι) where
  init s := ∃ nanos, s = .start (.null false) nanos
  step := State.step

/-- That Thread with a count of its idle looks at the queue. -/
def idleMachine (ι : Type*) [DecidableEq ι] : Machine (State ι × ℕ) (Action ι) := (createMachine ι).recorded 0 noteIdle

/-- A NullSocketServer::Wait for ever finds the event set. -/
def FindsSet {ι : Type*} (s : State ι) (a : Action ι) : Prop :=
  match a, s.loop, s.ss with
  | .loop, .park _ d, .null false => d ≠ kForever
  | _, _, _ => True

/-- Where the loop thread may be after an idle look: it goes to wait for a WakeUp, or leaves Get. -/
def LoopPc.Idle : LoopPc → Prop
  | .check f next => f.cmsWait = kForever ∧ next = kForever
  | .wait _ d | .park _ d => d = kForever
  | .take _ | .parked _ _ | .waited _ _ | .test _ | .epoll _ | .dispatch _ _ | .elapse _ => False
  | .outside _ | .call _ _ | .got _ _ | .run _ _ | .exited => True

structure IdleInvariant {ι : Type*} (s : State ι) (looks : ℕ) : Prop where
  null : ∃ event, s.ss = .null event
  looks : looks = 0 ∨ looks = 1 ∧ s.loop.Idle

/-- An idle look leaves nothing to wait for but a WakeUp. -/
theorem idle_take {ι : Type*} {s : State ι} {looks : ℕ} {f : GetFrame} (hp : s.loop = .take f) (hz : looks = 0) :
    noteIdle s .loop (s.take f) looks = 0 ∨ noteIdle s .loop (s.take f) looks = 1 ∧ (s.take f).loop.Idle := by
  have hahead : Ahead f.msCurrent (s.queue.processDelayedMessage f.msCurrent).1
    (s.queue.processDelayedMessage f.msCurrent).2.delayed.items := moveDue_ahead ..
  rcases hq : s.queue.processDelayedMessage f.msCurrent with ⟨next,q⟩
  rw [hq] at hahead
  cases hm : q.messages with
  | cons x rest => exact .inl (by simp [noteIdle, hp, State.take, hq, hm])
  | nil =>
    by_cases hf : f.cmsWait = kForever ∧ q.delayed.items = []
    · refine .inr ⟨by simp [noteIdle, hp, State.take, hq, hm, hf, hz],?_⟩
      have hnext : next = kForever := hahead.eq.trans (by simp [hf.2, earliest])
      simp [State.take, hq, hm, LoopPc.Idle, hf.1, hnext]
    · exact .inl (by simp [noteIdle, hp, State.take, hq, hm, hf])

section
variable {ι : Type*} [DecidableEq ι] {s t : State ι} {a : Action ι} {looks : ℕ}

theorem Turn.null (h : Turn s a t) (hs : ∃ event, s.ss = .null event) : ∃ event, t.ss = .null event := by
  obtain ⟨e,he⟩ := hs
  cases h with
  | reset => exact ⟨false,rfl⟩
  | set => exact ⟨true,rfl⟩
  | enter _ hs | onEvent _ hs | coalesce _ hs | lock _ hs | write _ hs | unlock _ hs =>
    rw [hs] at he
    cases he
  | _ => exact ⟨e,he⟩

theorem ProcessFrame.got_idle (p : ProcessFrame) (stop : Bool) (task : Option Task) : (p.got stop task).Idle := by
  cases task with
  | none => trivial
  | some x =>
    rw [ProcessFrame.got]
    split <;> trivial

theorem ProcessFrame.next_idle (p : ProcessFrame) (now : ℤ) : (p.next now).Idle := by
  rw [ProcessFrame.next]
  split
  · split <;> trivial
  · trivial

namespace IdleInvariant

theorem of_ne (h : IdleInvariant s looks) (ha : a ≠ .loop) (he : s.step a = some t) : IdleInvariant t looks := by
  refine ⟨(step_turn he).null h.null,h.looks.imp_right fun hl => ⟨hl.1,?_⟩⟩
  have hi := hl.2
  have hp := (step_aside ha he).1
  generalize t.loop = pc at hp
  cases hp with
  | stay => exact hi
  | enter | exit => trivial
  | interrupted hr | answered hr | ready hr | unpark hr | gaveUp hr =>
    rw [hr] at hi
    exact hi.elim

theorem loop (h : IdleInvariant s looks) (ha : FindsSet s .loop) (he : s.step .loop = some t) :
    IdleInvariant t (noteIdle s .loop t looks) := by
  refine ⟨(step_turn he).null h.null,?_⟩
  obtain ⟨e,hn⟩ := h.null
  have hl := h.looks
  cases hp : s.loop with
  | call p c => exact .inl (by simp [noteIdle, hp])
  | take f =>
    have hz : looks = 0 := hl.resolve_right fun hi => by simp [hp, LoopPc.Idle] at hi
    simp only [State.step, State.loopStep, hp, Option.some_inj] at he
    subst he
    exact idle_take hp hz
  | check f next =>
    simp only [State.step, State.loopStep, hp, Option.some_inj] at he
    subst he
    simp only [noteIdle, hp]
    refine hl.imp_right fun hl => ⟨hl.1,?_⟩
    have hi := hl.2
    simp only [hp, LoopPc.Idle] at hi
    cases hst : s.stop with
    | true => simp [State.goto, LoopPc.Idle]
    | false => simp [State.goto, LoopPc.Idle, GetFrame.cmsNext, hi]
  | wait f d =>
    simp only [State.step, State.loopStep, hp, hn, Option.some_inj] at he
    subst he
    simpa [noteIdle, hp, State.goto, LoopPc.Idle] using hl
  | park f d =>
    cases e with
    | true => exact .inl (by simp [noteIdle, hp, hn])
    | false =>
      have hd : d ≠ kForever := by simpa [FindsSet, hp, hn] using ha
      have hz : looks = 0 := hl.resolve_right fun hi => hd (by simpa [hp, LoopPc.Idle] using hi.2)
      exact .inl (by simpa [noteIdle, hp, hn] using hz)
  | got p task =>
    simp only [State.step, State.loopStep, hp, Option.some_inj] at he
    subst he
    simp only [noteIdle, hp]
    exact hl.imp_right fun hl => ⟨hl.1,p.got_idle s.stop task⟩
  | run p x =>
    simp only [State.step, State.loopStep, hp, Option.some_inj] at he
    subst he
    simp only [noteIdle, hp]
    exact hl.imp_right fun hl => ⟨hl.1,p.next_idle s.timeMillis⟩
  | outside r => simp [State.step, State.loopStep, hp] at he
  | epoll w => simp [State.step, State.loopStep, hp] at he
  | parked f d => simp [State.step, State.loopStep, hp] at he
  | exited => simp [State.step, State.loopStep, hp] at he
  | test w | dispatch w signaler | elapse w | waited f result =>
    have hz : looks = 0 := hl.resolve_right fun hi => by simp [hp, LoopPc.Idle] at hi
    exact .inl (by simpa [noteIdle, hp] using hz)

end IdleInvariant

/-- Between two idle looks at the queue a WakeUp is taken, where every endless wait finds the event set. -/
theorem idle_once (h : (idleMachine ι).Reachable (fun p a => FindsSet p.1 a) (s,looks)) : looks ≤ 1 := by
  have hi : IdleInvariant s looks := by
    apply h.rule (I := fun p => IdleInvariant p.1 p.2)
    · rintro ⟨u,_⟩ ⟨⟨nanos,rfl⟩,rfl⟩
      exact ⟨⟨false,rfl⟩,.inl rfl⟩
    · intro p a q hp ha he
      obtain ⟨he,hg⟩ := Machine.recorded_step he
      rw [hg]
      by_cases hl : a = .loop
      · subst hl
        exact hp.loop ha he
      · have hn : noteIdle p.1 a q.1 p.2 = p.2 := by
          cases a with
          | loop => exact absurd rfl hl
          | _ => rfl
        rw [hn]
        exact hp.of_ne hl he
  rcases hi.looks with hl | hl
  · exact hl.le.trans zero_le_one
  · exact hl.1.le

end

/-- In every run of an Event whose Waits find it set or have a fair deadline every Wait is honest, and in every run of
a Thread over a NullSocketServer whose endless waits find the event set it does not spin. -/
theorem waits_honest (ι κ : Type*) [DecidableEq ι] [DecidableEq κ] :
    (∀ s : Event ι, (eventMachine ι).Reachable Event.Sound s → s.Honest) ∧
      ∀ (u : State κ) (looks : ℕ), (idleMachine κ).Reachable (fun p a => FindsSet p.1 a) (u,looks) → looks ≤ 1 :=
  ⟨fun _ h => Event.honest_of_sound h,fun _ _ h => idle_once h⟩

theorem init_event {ι : Type*} [DecidableEq ι] (manualReset initiallySignaled : Bool) (nanos : ℕ) :
    (eventMachine ι).init (.start manualReset initiallySignaled nanos) := ⟨_,_,_,rfl⟩

theorem init_idle {ι : Type*} [DecidableEq ι] (nanos : ℕ) : (idleMachine ι).init (.start (.null false) nanos,0) :=
  ⟨⟨nanos,rfl⟩,rfl⟩

instance (w : WaitCall) (nanos : ℕ) : Decidable (w.Fair nanos) :=
  match w with
  | ⟨none,_⟩ => .isTrue trivial
  | ⟨some _,_⟩ => inferInstanceAs (Decidable (_ ∧ _))

instance {ι : Type*} (s : Event ι) (a : EventAction ι) : Decidable (s.Sound a) := by
  unfold Event.Sound
  split
  · split <;> infer_instance
  · infer_instance

/-- A Wait(5) at the epoch, given up when it is due. -/
theorem waits_honest_five : ∃ s : Event ℕ, s.returns = [⟨⟨some 5,0⟩,false,5000000,false⟩] ∧ s.Honest := by
  have h : ((eventMachine ℕ).run Event.Sound (.start false false 0) [.call 0 (.waitFor 5), .step 0, .step 0, .tick 5000000,
      .timeout 0, .step 0]).any (fun s => decide (s.returns = [⟨⟨some 5,0⟩,false,5000000,false⟩])) = true := by
    decide +kernel
  obtain ⟨s,hs,hp⟩ := Machine.exists_reachable_of_run (init_event false false 0) h
  exact ⟨s,of_decide_eq_true hp,(waits_honest ℕ ℕ).1 s hs⟩

/-- NullSocketServer::Wait(kForever) returns at once with no WakeUp, and a Thread made by Thread::Create spins. -/
theorem waits_dishonest :
    (¬∀ s : Event ℕ, (eventMachine ℕ).Reachable Machine.Free s → s.Honest) ∧
      ¬∀ (u : State ℕ) (looks : ℕ), (idleMachine ℕ).Reachable Machine.Free (u,looks) → looks ≤ 1 := by
  constructor
  · intro hall
    have h : ((eventMachine ℕ).run Machine.Free (.start false false 1700000000000000000)
        [.call 0 (NullSocketServer.wait kForever), .step 0, .step 0]).any
        (fun s => decide (⟨⟨some kForever,1700000000000000000⟩,false,1700000000000000000,false⟩ ∈ s.returns)) = true := by
      decide +kernel
    obtain ⟨s,hs,hp⟩ := Machine.exists_reachable_of_run (init_event false false 1700000000000000000) h
    cases ((hall s hs).returns _ (of_decide_eq_true hp)).forever rfl
  · intro hall
    have h : ((idleMachine ℕ).run Machine.Free (.start (.null false) 0,0) [.processMessages (-1), .loop, .loop, .loop,
        .loop, .loop, .loop, .loop]).any (fun p => decide (p.2 = 2)) = true := by
      decide +kernel
    obtain ⟨⟨u,looks⟩,hs,hp⟩ := Machine.exists_reachable_of_run (init_idle 0) h
    have hle := hall u looks hs
    have htwo : looks = 2 := of_decide_eq_true hp
    omega

/-- Wait(5000) gives up at once as well, this far from the epoch. -/
example : ((eventMachine ℕ).run Machine.Free (.start false false 1700000000000000000) [.call 0 (.waitFor 5000), .step 0,
    .step 0, .timeout 0, .step 0]).any (fun s => decide (s.returns =
      [⟨⟨some 5000,1700000000000000000⟩,false,1700000000000000000,false⟩])) = true := by
  decide +kernel

end UServer.Concurrency
