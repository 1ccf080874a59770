import UServer.Concurrency.Timespec
import UServer.Library.Monitor
import UServer.Library.Runs

/-! An Event and any number of threads that call Set, Reset and both kinds of Wait, against CLOCK_REALTIME in
nanoseconds since the epoch. Wait(give_up_after) makes its absolute deadline from the duration alone. -/
namespace UServer.Concurrency
open Library

/-- A call of Wait: its give_up_after, none for the one without, and the time of the call. -/
structure WaitCall where
  giveUpAfter : Option ℤ
  called : ℕ
  deriving DecidableEq

/-- What a Wait comes to, when, and event_status_ then. -/
structure WaitReturn where
  call : WaitCall
  result : Bool
  left : ℕ
  status : Bool
  deriving DecidableEq

inductive EventCall
  | set
  | reset
  | wait
  | waitFor (giveUpAfter : ℤ)
  deriving DecidableEq

/-- Where a thread is: before the mutex or with it held in Set and Reset; before the mutex, before the test, and
inside pthread_cond_wait or pthread_cond_timedwait, which may have given up, in Wait; before the end of the guard. -/
inductive EventPc
  | idle
  | set
  | setLocked
  | reset
  | resetLocked
  | entered (w : WaitCall)
  | testing (w : WaitCall)
  | parked (w : WaitCall)
  | gaveUp (w : WaitCall) (left : ℕ) (status : Bool)
  | leaving
  deriving DecidableEq

namespace EventPc

/-- With the mutex held. -/
def Inside : EventPc → Prop
  | setLocked | resetLocked | testing _ | leaving => True
  | _ => False

def Parked : EventPc → Prop
  | parked _ => True
  | _ => False

/-- The Wait that the thread is in. -/
def call : EventPc → Option WaitCall
  | entered w | testing w | parked w | gaveUp w _ _ => some w
  | _ => none

/-- Where a thread that waits for the mutex is once it has it. -/
def locked : EventPc → Option EventPc
  | set => some setLocked
  | reset => some resetLocked
  | entered w | parked w => some (testing w)
  | _ => none

theorem of_locked {pc next : EventPc} (h : pc.locked = some next) :
    next.Inside ∧ ∀ w, next.call = some w → pc.call = some w := by
  cases pc with
  | set | reset =>
    cases h
    exact ⟨trivial,by simp [call]⟩
  | entered w | parked w =>
    cases h
    exact ⟨trivial,fun _ hw => hw⟩
  | _ => cases h

end EventPc

def EventCall.enter (now : ℕ) : EventCall → EventPc
  | .set => .set
  | .reset => .reset
  | .wait => .entered ⟨none,now⟩
  | .waitFor giveUpAfter => .entered ⟨some giveUpAfter,now⟩

/-- NullSocketServer::Wait, which ignores what Event::Wait returns. -/
def NullSocketServer.wait (maxWaitDuration : ℤ) : EventCall := .waitFor maxWaitDuration

def NullSocketServer.wakeUp : EventCall := .set

/-- An Event, its threads, the time, how often it was set, and what every Wait came to. -/
structure Event (ι : Type*) where
  manualReset : Bool
  initiallySignaled : Bool
  eventStatus : Bool
  monitor : Monitor ι
  nanos : ℕ
  threads : ι → EventPc
  sets : ℕ
  returns : List WaitReturn

inductive EventAction (ι : Type*)
  | tick (nanos : ℕ)
  | call (i : ι) (c : EventCall)
  | step (i : ι)
  | timeout (i : ι)
  | spurious (woken : List ι)
  deriving DecidableEq

namespace Event
variable {ι : Type*}

def start (manualReset initiallySignaled : Bool) (nanos : ℕ) : Event ι :=
  { manualReset, initiallySignaled, eventStatus := initiallySignaled, monitor := .free, nanos, threads := fun _ => .idle,
    sets := 0, returns := [] }

variable [DecidableEq ι]

def goto (s : Event ι) (i : ι) (pc : EventPc) : Event ι := { s with threads := Function.update s.threads i pc }

def lock (s : Event ι) (i : ι) (pc : EventPc) : Option (Event ι) :=
  (s.monitor.lock i).map fun m => { s.goto i pc with monitor := m }

/-- The mutex held, what this Wait returns is settled. -/
def settle (s : Event ι) (i : ι) (r : WaitReturn) : Event ι := { s.goto i .leaving with returns := s.returns ++ [r] }

def park (s : Event ι) (i : ι) (w : WaitCall) : Event ι := { s.goto i (.parked w) with monitor := s.monitor.park i }

/-- The test of event_status_ and what follows it under the mutex. -/
def test (s : Event ι) (i : ι) (w : WaitCall) : Event ι :=
  if s.eventStatus then
    { s.settle i ⟨w,true,s.nanos,true⟩ with eventStatus := if s.manualReset then s.eventStatus else false }
  else match w.giveUpAfter with
    | none => s.park i w
    | some d => if (Timespec.ofMillis d).Valid then s.park i w else s.settle i ⟨w,false,s.nanos,false⟩

def stepThread (s : Event ι) (i : ι) : Option (Event ι) :=
  match s.threads i with
  | .idle => none
  | .set => s.lock i .setLocked
  | .setLocked => some { s.goto i .leaving with eventStatus := true, monitor := s.monitor.broadcast, sets := s.sets + 1 }
  | .reset => s.lock i .resetLocked
  | .resetLocked => some { s.goto i .leaving with eventStatus := false }
  | .entered w => s.lock i (.testing w)
  | .testing w => some (s.test i w)
  | .parked w => if i ∈ s.monitor.waiting then none else s.lock i (.testing w)
  | .gaveUp w left status => (s.monitor.lock i).map fun m => { s.settle i ⟨w,false,left,status⟩ with monitor := m }
  | .leaving => some { s.goto i .idle with monitor := s.monitor.unlock }

/-- pthread_cond_timedwait gives up a wait that nothing has woken, once its deadline has passed. -/
def timeout (s : Event ι) (i : ι) : Option (Event ι) :=
  match s.threads i with
  | .parked ⟨some d,called⟩ =>
    if i ∈ s.monitor.waiting ∧ (Timespec.ofMillis d).Passed s.nanos then
      some { s.goto i (.gaveUp ⟨some d,called⟩ s.nanos s.eventStatus) with monitor := s.monitor.wake [i] }
    else none
  | _ => none

def step (s : Event ι) : EventAction ι → Option (Event ι)
  | .tick nanos => some { s with nanos := s.nanos + nanos }
  | .call i c => if s.threads i = .idle then some (s.goto i (c.enter s.nanos)) else none
  | .step i => s.stepThread i
  | .timeout i => s.timeout i
  | .spurious woken => some { s with monitor := s.monitor.wake woken }

/-- What one step does, branch by branch. -/
inductive Turn (s : Event ι) : EventAction ι → Event ι → Prop
  | tick {nanos : ℕ} : Turn s (.tick nanos) { s with nanos := s.nanos + nanos }
  | call {i : ι} {c : EventCall} (hi : s.threads i = .idle) : Turn s (.call i c) (s.goto i (c.enter s.nanos))
  | lock {i : ι} {pc : EventPc} {m : Monitor ι} (hl : (s.threads i).locked = some pc)
      (hw : (s.threads i).Parked → i ∉ s.monitor.waiting) (hm : s.monitor.lock i = some m) :
      Turn s (.step i) { s.goto i pc with monitor := m }
  | set {i : ι} (hi : s.threads i = .setLocked) :
      Turn s (.step i) { s.goto i .leaving with eventStatus := true, monitor := s.monitor.broadcast, sets := s.sets + 1 }
  | reset {i : ι} (hi : s.threads i = .resetLocked) : Turn s (.step i) { s.goto i .leaving with eventStatus := false }
  | take {i : ι} {w : WaitCall} (hi : s.threads i = .testing w) (hs : s.eventStatus = true) :
      Turn s (.step i)
        { s.settle i ⟨w,true,s.nanos,true⟩ with eventStatus := if s.manualReset then s.eventStatus else false }
  | park {i : ι} {w : WaitCall} (hi : s.threads i = .testing w) (hs : s.eventStatus = false) :
      Turn s (.step i) (s.park i w)
  | refuse {i : ι} {w : WaitCall} {d : ℤ} (hi : s.threads i = .testing w) (hs : s.eventStatus = false)
      (hd : w.giveUpAfter = some d) (hv : ¬ (Timespec.ofMillis d).Valid) :
      Turn s (.step i) (s.settle i ⟨w,false,s.nanos,false⟩)
  | gaveUp {i : ι} {w : WaitCall} {left : ℕ} {status : Bool} {m : Monitor ι} (hi : s.threads i = .gaveUp w left status)
      (hm : s.monitor.lock i = some m) : Turn s (.step i) { s.settle i ⟨w,false,left,status⟩ with monitor := m }
  | leave {i : ι} (hi : s.threads i = .leaving) :
      Turn s (.step i) { s.goto i .idle with monitor := s.monitor.unlock }
  | timeout {i : ι} {d : ℤ} {called : ℕ} (hi : s.threads i = .parked ⟨some d,called⟩) (hw : i ∈ s.monitor.waiting)
      (hp : (Timespec.ofMillis d).Passed s.nanos) :
      Turn s (.timeout i)
        { s.goto i (.gaveUp ⟨some d,called⟩ s.nanos s.eventStatus) with monitor := s.monitor.wake [i] }
  | spurious {woken : List ι} : Turn s (.spurious woken) { s with monitor := s.monitor.wake woken }

section
variable {s t : Event ι} {i : ι} {pc : EventPc}

private theorem lock_turn (hl : (s.threads i).locked = some pc) (hw : (s.threads i).Parked → i ∉ s.monitor.waiting)
    (he : s.lock i pc = some t) : Turn s (.step i) t := by
  obtain ⟨m,hm,rfl⟩ := Option.map_eq_some_iff.mp he
  exact .lock hl hw hm

private theorem test_turn {w : WaitCall} (hi : s.threads i = .testing w) : Turn s (.step i) (s.test i w) := by
  cases hs : s.eventStatus with
  | true =>
    rw [test, if_pos hs]
    exact .take hi hs
  | false =>
    rw [test, if_neg (by simp [hs])]
    cases hd : w.giveUpAfter with
    | none => exact .park hi hs
    | some d =>
      by_cases hv : (Timespec.ofMillis d).Valid
      · simpa [hv] using Turn.park hi hs
      · simpa [hv] using Turn.refuse hi hs hd hv

private theorem stepThread_turn (he : s.stepThread i = some t) : Turn s (.step i) t := by
  cases hi : s.threads i with
  | idle => simp [stepThread, hi] at he
  | set | reset | entered w =>
    simp only [stepThread, hi] at he
    exact lock_turn (by rw [hi]; rfl) (by rw [hi]; exact False.elim) he
  | setLocked =>
    simp only [stepThread, hi, Option.some_inj] at he
    exact he ▸ .set hi
  | resetLocked =>
    simp only [stepThread, hi, Option.some_inj] at he
    exact he ▸ .reset hi
  | leaving =>
    simp only [stepThread, hi, Option.some_inj] at he
    exact he ▸ .leave hi
  | testing w =>
    simp only [stepThread, hi, Option.some_inj] at he
    exact he ▸ test_turn hi
  | parked w =>
    simp only [stepThread, hi, Option.ite_none_left_eq_some] at he
    exact lock_turn (by rw [hi]; rfl) (fun _ => he.1) he.2
  | gaveUp w left status =>
    simp only [stepThread, hi] at he
    obtain ⟨m,hm,rfl⟩ := Option.map_eq_some_iff.mp he
    exact .gaveUp hi hm

theorem step_turn {a : EventAction ι} (he : s.step a = some t) : Turn s a t := by
  cases a with
  | tick nanos =>
    cases he
    exact .tick
  | call i c =>
    obtain ⟨hi,he⟩ := Option.ite_none_right_eq_some.mp he
    cases he
    exact .call hi
  | step i => exact stepThread_turn he
  | timeout i =>
    rw [step, timeout] at he
    split at he
    · rename_i d called hi
      obtain ⟨⟨hw,hp⟩,he⟩ := Option.ite_none_right_eq_some.mp he
      cases he
      exact .timeout hi hw hp
    · cases he
  | spurious woken =>
    cases he
    exact .spurious

end

/-- Nobody waits for an event that is set, and an event is taken no more often than it was set. -/
structure Invariant (s : Event ι) : Prop where
  agrees : s.monitor.Agrees EventPc.Inside EventPc.Parked s.threads
  unset : s.monitor.waiting ≠ [] → s.eventStatus = false
  called : ∀ i w, (s.threads i).call = some w → w.called ≤ s.nanos
  taken : s.manualReset = false →
    s.returns.countP WaitReturn.result + s.eventStatus.toNat ≤ s.sets + s.initiallySignaled.toNat

end Event

def eventMachine (ι : Type*) [DecidableEq ι] : Machine (Event ι) (EventAction ι) where
  init s := ∃ manualReset initiallySignaled nanos, s = .start manualReset initiallySignaled nanos
  step := Event.step

namespace Event.Invariant
variable {ι : Type*} {s t : Event ι} {i : ι} {here pc : EventPc}

theorem start (manualReset initiallySignaled : Bool) (nanos : ℕ) :
    Invariant (.start manualReset initiallySignaled nanos : Event ι) where
  agrees := ⟨by simp [Event.start, Monitor.free, EventPc.Inside],by simp [Event.start, Monitor.free],List.nodup_nil⟩
  unset h := absurd rfl h
  called := by simp [Event.start, EventPc.call]
  taken _ := by simp [Event.start]

/-- A thread that stays in the call it is in keeps its time. -/
theorem called_of_call (h : s.Invariant) (hi : s.threads i = here) (hc : pc.call = here.call) (w : WaitCall)
    (hw : pc.call = some w) : w.called ≤ s.nanos :=
  h.called i w (hi ▸ hc ▸ hw)

variable [DecidableEq ι]

/-- A step of one thread, whatever it does to the event. -/
private theorem goto (h : s.Invariant) {m : Monitor ι} {status : Bool} {sets : ℕ} {returns : List WaitReturn}
    (ha : m.Agrees EventPc.Inside EventPc.Parked (Function.update s.threads i pc)) (hu : m.waiting ≠ [] → status = false)
    (hc : ∀ w, pc.call = some w → w.called ≤ s.nanos)
    (hs : s.manualReset = false → returns.countP WaitReturn.result + status.toNat ≤ sets + s.initiallySignaled.toNat) :
    Invariant { s.goto i pc with eventStatus := status, monitor := m, sets, returns } where
  agrees := ha
  unset := hu
  called := (Function.forall_update_iff s.threads fun _ p => ∀ w, p.call = some w → w.called ≤ s.nanos).mpr
    ⟨hc,fun j _ => h.called j⟩
  taken := hs

/-- The mutex taken by a thread that waits for it, woken if it was parked. -/
private theorem lock (h : s.Invariant) {m : Monitor ι} (hl : (s.threads i).locked = some pc)
    (hw : (s.threads i).Parked → i ∉ s.monitor.waiting) (hm : s.monitor.lock i = some m) :
    Invariant { s.goto i pc with monitor := m } := by
  have hk : i ∉ s.monitor.waiting := fun hi => hw (h.agrees.waiting i hi) hi
  have hc : pc.Inside ∧ ∀ w, pc.call = some w → (s.threads i).call = some w := EventPc.of_locked hl
  exact h.goto (h.agrees.lock hm hc.1 hk) (Monitor.lock_waiting hm ▸ h.unset)
    (fun w hw => h.called i w (hc.2 w hw)) h.taken

/-- A step with nothing but the place of the thread changed. -/
private theorem move (h : s.Invariant) (hi : s.threads i = here) (hin : pc.Inside ↔ here.Inside) (hk : ¬ here.Parked)
    (hc : ∀ w, pc.call = some w → w.called ≤ s.nanos) : (s.goto i pc).Invariant :=
  h.goto (h.agrees.move_of hi hin hk) h.unset hc h.taken

private theorem take (h : s.Invariant) {w : WaitCall} (hi : s.threads i = .testing w) (hs : s.eventStatus = true) :
    Invariant { s.settle i ⟨w,true,s.nanos,true⟩ with
      eventStatus := if s.manualReset then s.eventStatus else false } := by
  refine h.goto (h.agrees.move_of hi .rfl id) ?_ (by simp [EventPc.call]) ?_
  · intro hw
    simp [h.unset hw] at hs
  · intro hm
    have ht := h.taken hm
    rw [hs] at ht
    simpa [Event.settle, Event.goto, hm, List.countP_append] using ht

theorem step (h : s.Invariant) {a : EventAction ι} (he : s.step a = some t) : t.Invariant := by
  cases step_turn he with
  | tick => exact { h with called := fun j w hw => (h.called j w hw).trans (Nat.le_add_right _ _) }
  | @call i c hi =>
    cases c with
    | set | reset => exact h.move hi .rfl id (by simp [EventCall.enter, EventPc.call])
    | wait | waitFor d =>
      refine h.move hi .rfl id fun w hw => ?_
      cases hw
      exact le_rfl
  | lock hl hw hm => exact h.lock hl hw hm
  | set hi =>
    refine h.goto (h.agrees.broadcast.move_of hi .rfl id) (by simp [Monitor.broadcast]) (by simp [EventPc.call])
      fun hm => ?_
    have ht := h.taken hm
    have hb : s.eventStatus.toNat ≤ 1 := Bool.toNat_le _
    simp only [Event.goto, Bool.toNat_true]
    omega
  | reset hi =>
    refine h.goto (h.agrees.move_of hi .rfl id) (fun _ => rfl) (by simp [EventPc.call]) fun hm => ?_
    exact (Nat.add_le_add_left (Nat.zero_le _) _).trans (h.taken hm)
  | take hi hs => exact h.take hi hs
  | park hi hs =>
    exact h.goto (h.agrees.park (by rw [hi]; trivial) id (by rw [hi]; exact id) trivial) (fun _ => hs)
      (h.called_of_call hi rfl) h.taken
  | refuse hi =>
    refine h.goto (h.agrees.move_of hi .rfl id) h.unset (by simp [EventPc.call]) fun hr => ?_
    simpa [Event.settle, Event.goto, List.countP_append] using h.taken hr
  | gaveUp hi hm =>
    refine h.goto (h.agrees.lock hm trivial (h.agrees.not_waiting hi id)) (Monitor.lock_waiting hm ▸ h.unset)
      (by simp [EventPc.call]) fun hr => ?_
    simpa [Event.settle, Event.goto, List.countP_append] using h.taken hr
  | leave hi =>
    exact h.goto (h.agrees.unlock (by rw [hi]; trivial) id (by rw [hi]; exact id)) h.unset (by simp [EventPc.call]) h.taken
  | @timeout i d called hi =>
    refine h.goto ((h.agrees.wake [i]).move (by rw [hi]; rfl) fun hm => ?_) (fun hw => h.unset (Monitor.wake_ne_nil hw))
      (h.called_of_call hi rfl) h.taken
    simp [Monitor.wake] at hm
  | @spurious woken =>
    exact { h with agrees := h.agrees.wake woken, unset := fun hw => h.unset (Monitor.wake_ne_nil hw) }

end Event.Invariant
end UServer.Concurrency
