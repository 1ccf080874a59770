import UServer.Concurrency.EventWaits

/-! Thread keeps of a NullSocketServer whether its event is set and whether the loop thread waits for it. Whatever it
comes to, an Event with the loop thread and the posters as its threads comes to as well. -/
namespace UServer.Concurrency
open Library

section
variable {ι : Type*} [DecidableEq ι]

/-- An auto-reset Event whose mutex is free: the loop thread, which is none, is at the given place, and no poster in a
call. -/
structure Event.At (pc : EventPc) (waiting : List (Option ι)) (status : Bool) (v : Event (Option ι)) : Prop where
  manualReset : v.manualReset = false
  monitor : v.monitor = ⟨none,waiting⟩
  eventStatus : v.eventStatus = status
  loop : v.threads none = pc
  posters : ∀ i, v.threads (some i) = .idle

variable (ι) in
def Event.CanBe (pc : EventPc) (waiting : List (Option ι)) (status : Bool) : Prop :=
  ∃ v, (eventMachine (Option ι)).Reachable Machine.Free v ∧ v.At pc waiting status

namespace Event.CanBe
variable {pc : EventPc} {w : WaitCall} {waiting : List (Option ι)} {status : Bool} {d : ℤ} {called : ℕ}

theorem of_run {pc' : EventPc} {waiting' : List (Option ι)} {status' : Bool} (h : CanBe ι pc waiting status)
    (as : List (EventAction (Option ι)))
    (hr : ∀ v : Event (Option ι), v.At pc waiting status →
      ∃ u, (eventMachine (Option ι)).run Machine.Free v as = some u ∧ u.At pc' waiting' status') :
    CanBe ι pc' waiting' status' := by
  obtain ⟨v,⟨v₀,hi,hv⟩,ha⟩ := h
  obtain ⟨u,hu,ha'⟩ := hr v ha
  exact ⟨u,⟨v₀,hi,hv.trans (Machine.reaches_of_run hu)⟩,ha'⟩

theorem start : CanBe ι .idle [] false :=
  ⟨.start false false 0,⟨_,⟨_,_,_,rfl⟩,.refl⟩,rfl,rfl,rfl,rfl,fun _ => rfl⟩

/-- A poster's Set wakes the loop thread if it waits. -/
theorem set (h : CanBe ι pc waiting status) (i : ι) : CanBe ι pc [] true := by
  refine h.of_run [.call (some i) NullSocketServer.wakeUp, .step (some i), .step (some i), .step (some i)] ?_
  rintro v ⟨hm,hv,-,hl,hp⟩
  refine ⟨{ v with
    eventStatus := true, monitor := ⟨none,[]⟩, threads := Function.update v.threads (some i) .idle, sets := v.sets + 1 },
    ?_,hm,rfl,rfl,?_,fun j => ?_⟩
  · simp [Machine.run, Machine.Free, eventMachine, Event.step, stepThread, hp, hv, Event.goto, NullSocketServer.wakeUp,
      EventCall.enter, Event.lock, Monitor.lock, Monitor.broadcast, Monitor.unlock]
  · simpa using hl
  · rcases eq_or_ne j i with rfl | hj
    · simp
    · simpa [hj] using hp j

private theorem update_loop {v : Event (Option ι)} {pc pc' : EventPc} {waiting waiting' : List (Option ι)}
    {status status' : Bool} (h : v.At pc waiting status) {u : Event (Option ι)} (hm : u.manualReset = v.manualReset)
    (hv : u.monitor = ⟨none,waiting'⟩) (hs : u.eventStatus = status') (ht : u.threads = Function.update v.threads none pc') :
    u.At pc' waiting' status' where
  manualReset := hm.trans h.manualReset
  monitor := hv
  eventStatus := hs
  loop := ht ▸ Function.update_self ..
  posters i := by
    rw [ht, Function.update_of_ne (by simp)]
    exact h.posters i

/-- The loop thread calls Wait. -/
theorem enter (h : CanBe ι .idle [] status) (d : ℤ) : ∃ called, CanBe ι (.entered ⟨some d,called⟩) [] status := by
  obtain ⟨v,hv,ha⟩ := h
  have hstep : (eventMachine (Option ι)).step v (.call none (NullSocketServer.wait d)) =
      some (v.goto none (.entered ⟨some d,v.nanos⟩)) := by
    simp [eventMachine, Event.step, ha.loop, NullSocketServer.wait, EventCall.enter]
  have hr : (eventMachine (Option ι)).Reachable Machine.Free (v.goto none (.entered ⟨some d,v.nanos⟩)) :=
    hv.tail trivial hstep
  exact ⟨v.nanos,_,hr,update_loop ha rfl ha.monitor ha.eventStatus rfl⟩

/-- It has the mutex, finds the event set and takes it. -/
theorem take (h : CanBe ι pc [] true) (hpc : pc = .entered w ∨ pc = .parked w) : CanBe ι .idle [] false := by
  refine h.of_run [.step none, .step none, .step none] fun v ha => ?_
  refine ⟨{ v with
    eventStatus := false, monitor := ⟨none,[]⟩, threads := Function.update v.threads none .idle
    returns := v.returns ++ [⟨w,true,v.nanos,true⟩] },?_,update_loop ha rfl rfl rfl rfl⟩
  obtain ⟨hm,hv,hs,hl,-⟩ := ha
  rcases hpc with rfl | rfl <;>
    simp [Machine.run, Machine.Free, eventMachine, Event.step, stepThread, hl, hv, hs, hm, Event.goto, Event.lock,
      Event.test, Event.settle, Monitor.lock, Monitor.unlock]

/-- It does not, and waits. -/
theorem park (h : CanBe ι pc [] false) (hpc : pc = .entered ⟨some d,called⟩ ∨ pc = .parked ⟨some d,called⟩)
    (hd : (Timespec.ofMillis d).Valid) : CanBe ι (.parked ⟨some d,called⟩) [none] false := by
  refine h.of_run [.step none, .step none] fun v ha => ?_
  refine ⟨{ v with
    eventStatus := false, monitor := ⟨none,[none]⟩, threads := Function.update v.threads none (.parked ⟨some d,called⟩) },
    ?_,update_loop ha rfl rfl rfl rfl⟩
  obtain ⟨hm,hv,hs,hl,-⟩ := ha
  rcases hpc with rfl | rfl <;>
    simp [Machine.run, Machine.Free, eventMachine, Event.step, stepThread, hl, hv, hs, hd, Event.goto, Event.lock,
      Event.test, Event.park, Monitor.lock, Monitor.park]

/-- It does not, and the deadline is rejected. -/
theorem reject (h : CanBe ι pc [] false) (hpc : pc = .entered ⟨some d,called⟩ ∨ pc = .parked ⟨some d,called⟩)
    (hd : ¬ (Timespec.ofMillis d).Valid) : CanBe ι .idle [] false := by
  refine h.of_run [.step none, .step none, .step none] fun v ha => ?_
  refine ⟨{ v with
    eventStatus := false, monitor := ⟨none,[]⟩, threads := Function.update v.threads none .idle
    returns := v.returns ++ [⟨⟨some d,called⟩,false,v.nanos,false⟩] },?_,update_loop ha rfl rfl rfl rfl⟩
  obtain ⟨hm,hv,hs,hl,-⟩ := ha
  rcases hpc with rfl | rfl <;>
    simp [Machine.run, Machine.Free, eventMachine, Event.step, stepThread, hl, hv, hs, hd, Event.goto, Event.lock,
      Event.test, Event.settle, Monitor.lock, Monitor.unlock]

/-- A wait that is over, for a Set or for nothing. -/
theorem wake (h : CanBe ι (.parked w) waiting status) : CanBe ι (.parked w) [] status := by
  refine h.of_run [.spurious waiting] fun v ha => ?_
  refine ⟨{ v with monitor := ⟨none,[]⟩ },?_,ha.manualReset,rfl,ha.eventStatus,ha.loop,ha.posters⟩
  simp [Machine.run, Machine.Free, eventMachine, Event.step, ha.monitor, Monitor.wake]

/-- A wait that is given up once its deadline has passed. -/
theorem timeout (h : CanBe ι (.parked ⟨some d,called⟩) [none] status) :
    ∃ left, CanBe ι (.gaveUp ⟨some d,called⟩ left status) [] status := by
  obtain ⟨v,⟨v₀,hi,hv⟩,ha⟩ := h
  obtain ⟨later,hp⟩ := (Timespec.ofMillis d).exists_passed v.nanos
  have hrun : (eventMachine (Option ι)).run Machine.Free v [.tick later, .timeout none] =
      some { v with
        monitor := ⟨none,[]⟩, nanos := v.nanos + later
        threads := Function.update v.threads none (.gaveUp ⟨some d,called⟩ (v.nanos + later) status) } := by
    simp [Machine.run, Machine.Free, eventMachine, Event.step, Event.timeout, ha.loop, ha.monitor, ha.eventStatus, hp,
      Event.goto, Monitor.wake]
  exact ⟨v.nanos + later,_,⟨v₀,hi,hv.trans (Machine.reaches_of_run hrun)⟩,update_loop ha rfl rfl ha.eventStatus rfl⟩

theorem giveUp {left : ℕ} {before : Bool} (h : CanBe ι (.gaveUp w left before) [] status) : CanBe ι .idle [] status := by
  refine h.of_run [.step none, .step none] fun v ha => ?_
  refine ⟨{ v with
    monitor := ⟨none,[]⟩, threads := Function.update v.threads none .idle
    returns := v.returns ++ [⟨w,false,left,before⟩] },?_,update_loop ha rfl rfl ha.eventStatus rfl⟩
  simp [Machine.run, Machine.Free, eventMachine, Event.step, stepThread, ha.loop, ha.monitor, Event.goto, Event.settle,
    Monitor.lock, Monitor.unlock]

end Event.CanBe

variable (ι) in
/-- What an Event comes to where the loop thread is at a place of the Thread. A wait may have been given up already,
before a Set that finds nobody waiting. -/
def LoopPc.OnEvent : LoopPc → Bool → Prop
  | .park _ d, status =>
    ∃ called pc, (pc = .entered ⟨some d,called⟩ ∨ pc = .parked ⟨some d,called⟩) ∧ Event.CanBe ι pc [] status
  | .parked _ d, status =>
    (∃ called, Event.CanBe ι (.parked ⟨some d,called⟩) (if status then [] else [none]) status) ∧
      ∃ called left before, Event.CanBe ι (.gaveUp ⟨some d,called⟩ left before) [] status
  | _, status => Event.CanBe ι .idle [] status

variable {s t : State ι} {a : Action ι} {status : Bool}

/-- A WakeUp sets the event wherever the loop thread is. -/
theorem LoopPc.OnEvent.set {pc : LoopPc} (h : pc.OnEvent ι status) (i : ι) : pc.OnEvent ι true := by
  cases pc with
  | park f d =>
    obtain ⟨called,pc,hpc,hc⟩ := h
    exact ⟨called,pc,hpc,hc.set i⟩
  | parked f d =>
    obtain ⟨⟨called,hc⟩,called',left,before,hg⟩ := h
    exact ⟨⟨called,hc.set i⟩,called',left,before,hg.set i⟩
  | _ => exact Event.CanBe.set h i

theorem LoopMove.onEvent {pc : LoopPc} (h : LoopMove s pc) (hs : s.ss = .null status) (hc : s.loop.OnEvent ι status) :
    pc.OnEvent ι status := by
  cases h with
  | @park f d e h hn =>
    rw [h] at hc
    obtain ⟨called,he⟩ := Event.CanBe.enter hc d
    exact ⟨called,_,.inl rfl,he⟩
  | @parked f d h hn hv =>
    cases hs.symm.trans hn
    rw [h] at hc
    obtain ⟨called,pc,hpc,hc⟩ := hc
    have hp := hc.park hpc hv
    obtain ⟨left,hg⟩ := hp.timeout
    exact ⟨⟨called,hp⟩,called,left,false,hg⟩
  | @rejected f d h hn hv =>
    cases hs.symm.trans hn
    rw [h] at hc
    obtain ⟨called,pc,hpc,hc⟩ := hc
    exact hc.reject hpc hv
  | @unpark f d h =>
    rw [h] at hc
    obtain ⟨⟨called,hc⟩,-⟩ := hc
    exact ⟨called,_,.inr rfl,hc.wake⟩
  | @gaveUp f d h =>
    rw [h] at hc
    obtain ⟨-,called,left,before,hg⟩ := hc
    exact hg.giveUp
  | processMessages h | call h | quitting h | wait h | test h | leave h | interrupted h | answered h | ready h
    | dispatched h | elapsed h | again h | returnEmpty h | lookAgain h | run h | finish h | next h | spent h | exit h =>
    rw [h] at hc
    exact hc

theorem Turn.keeps_onEvent (h : Turn s a t) (hs : ∃ status, s.ss = .null status ∧ s.loop.OnEvent ι status) :
    ∃ status, t.ss = .null status ∧ t.loop.OnEvent ι status := by
  obtain ⟨status,hss,hc⟩ := hs
  cases h with
  | move hm => exact ⟨status,hss,hm.onEvent hss hc⟩
  | give h | look h =>
    rw [h] at hc
    exact ⟨status,hss,hc⟩
  | @reset f d h hn =>
    cases hss.symm.trans hn
    rw [h] at hc
    obtain ⟨called,pc,hpc,hc⟩ := hc
    exact ⟨false,rfl,hc.take hpc⟩
  | @set i event h hn => exact ⟨true,rfl,hc.set i⟩
  | enter _ hp | onEvent _ hp | coalesce _ hp | lock _ hp | write _ hp | unlock _ hp => cases hss.symm.trans hp
  | _ => exact ⟨status,hss,hc⟩

/-- In every state of a Thread over a NullSocketServer an Event has come to be as set, and as waited for, as the
Thread says. -/
theorem nullServer_onEvent (h : (createMachine ι).Reachable Machine.Free s) :
    ∃ status, s.ss = .null status ∧ s.loop.OnEvent ι status := by
  apply h.rule (I := fun s => ∃ status, s.ss = .null status ∧ s.loop.OnEvent ι status)
  · rintro u ⟨nanos,rfl⟩
    exact ⟨false,rfl,.start⟩
  · exact fun u a v hu _ he => (step_turn he).keeps_onEvent hu

end
end UServer.Concurrency
