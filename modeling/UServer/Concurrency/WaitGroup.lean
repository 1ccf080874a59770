import UServer.Library.Monitor
import UServer.Library.Runs

/-! A WaitGroup, whose constructor writes through a data_ that nothing allocates, and any number of threads that would
call Add, Done and Wait if there were one. -/
namespace UServer.Concurrency
open Library

/-- NotifyAll, which calls pthread_cond_signal. -/
def ConditionVariable.notifyAll {ι : Type*} [DecidableEq ι] (m : Monitor ι) (woken : List ι) : Option (Monitor ι) :=
  if m.Signals woken then some (m.wake woken) else none

/-- Where a thread is. In Done: past the assertion, which only logs, and, where the decrement gave zero, before the
mutex, before NotifyAll and before the end of the guard. In Wait: before the mutex, before the predicate, before and
inside pthread_cond_wait, and before the end of the guard. -/
inductive GroupPc
  | idle
  | asserted
  | zeroed
  | notifying
  | notified
  | entered
  | testing
  | parking
  | parked
  | leaving
  deriving DecidableEq

namespace GroupPc

/-- With the mutex held. -/
def Inside (pc : GroupPc) : Prop := pc ∈ [notifying, notified, testing, parking, leaving]

def Parked (pc : GroupPc) : Prop := pc = parked

def InWait (pc : GroupPc) : Prop := pc ∈ [entered, testing, parking, parked, leaving]

/-- In the Done that brought the count to zero. -/
def Zeroing (pc : GroupPc) : Prop := pc ∈ [zeroed, notifying, notified]

/-- In that Done and before its notification. -/
def WillNotify (pc : GroupPc) : Prop := pc = zeroed ∨ pc = notifying

instance : DecidablePred Inside := fun pc => inferInstanceAs (Decidable (pc ∈ _))

instance : DecidablePred Parked := fun pc => inferInstanceAs (Decidable (pc = _))

instance : DecidablePred InWait := fun pc => inferInstanceAs (Decidable (pc ∈ _))

instance : DecidablePred Zeroing := fun pc => inferInstanceAs (Decidable (pc ∈ _))

instance : DecidablePred WillNotify := fun pc => inferInstanceAs (Decidable (pc = _ ∨ pc = _))

theorem WillNotify.zeroing {pc : GroupPc} (h : pc.WillNotify) : pc.Zeroing := by
  rcases h with rfl | rfl
  · decide
  · decide

end GroupPc

/-- WaitGroup::Data with its initializers. -/
structure WaitGroup.Data (ι : Type*) where
  count : UInt32 := 0
  monitor : Monitor ι := .free

/-- The Data of a WaitGroup, its threads, whether a Done has brought the count to zero, whether a Wait has begun,
and the counts with which Waits returned. -/
structure WaitGroup (ι : Type*) extends WaitGroup.Data ι where
  threads : ι → GroupPc
  reached : Bool
  waited : Bool
  returned : List UInt32

inductive GroupAction (ι : Type*)
  | add (count : UInt32)
  | done (i : ι)
  | wait (i : ι)
  | step (i : ι)
  | notify (i : ι) (woken : List ι)
  | spurious (woken : List ι)
  deriving DecidableEq

namespace WaitGroup
variable {ι : Type*}

/-- The body of the constructor, over what data_ points to. -/
def construct (data : Option (Data ι)) (initialCount : UInt32) : Execution (WaitGroup ι) :=
  match data with
  | none => .undefined
  | some d => .defined
    { d with count := initialCount, threads := fun _ => .idle, reached := false, waited := false, returned := [] }

/-- The constructor, whose initializer list does not name data_: a shared_ptr starts as null. -/
def new (initialCount : UInt32) : Execution (WaitGroup ι) := construct none initialCount

section
variable [DecidableEq ι]

def goto (s : WaitGroup ι) (i : ι) (pc : GroupPc) : WaitGroup ι := { s with threads := Function.update s.threads i pc }

def lock (s : WaitGroup ι) (i : ι) (pc : GroupPc) : Option (WaitGroup ι) :=
  (s.monitor.lock i).map fun m => { s.goto i pc with monitor := m }

def unlock (s : WaitGroup ι) (i : ι) : WaitGroup ι := { s.goto i .idle with monitor := s.monitor.unlock }

/-- The decrement of Done, which wraps at zero. A Done that does not reach zero flows off the end of a function that
returns a bool. -/
def decrement (s : WaitGroup ι) (i : ι) : Execution (WaitGroup ι) :=
  if s.count - 1 = 0 then .defined { s.goto i .zeroed with count := s.count - 1, reached := true } else .undefined

/-- The step of a thread that is anywhere but at the decrement of Done. -/
def stepThread (s : WaitGroup ι) (i : ι) : Option (WaitGroup ι) :=
  match s.threads i with
  | .idle | .asserted | .notifying => none
  | .zeroed => s.lock i .notifying
  | .notified => some (s.unlock i)
  | .entered => s.lock i .testing
  | .testing => some (s.goto i (if s.count = 0 then .leaving else .parking))
  | .parking => some { s.goto i .parked with monitor := s.monitor.park i }
  | .parked => if i ∈ s.monitor.waiting then none else s.lock i .testing
  | .leaving => some { s.unlock i with returned := s.returned ++ [s.count] }

/-- Add comes before the count reaches zero, or before the first Wait where it starts there. Its assertion only logs. -/
def step (s : WaitGroup ι) : GroupAction ι → Option (Execution (WaitGroup ι))
  | .add count =>
    if 0 < s.count ∨ s.reached = false ∧ s.waited = false then some (.defined { s with count := s.count + count })
    else none
  | .done i => if s.threads i = .idle then some (.defined (s.goto i .asserted)) else none
  | .wait i => if s.threads i = .idle then some (.defined { s.goto i .entered with waited := true }) else none
  | .step i => if s.threads i = .asserted then some (s.decrement i) else (s.stepThread i).map .defined
  | .notify i woken =>
    if s.threads i = .notifying then
      (ConditionVariable.notifyAll s.monitor woken).map fun m => .defined { s.goto i .notified with monitor := m }
    else none
  | .spurious woken => some (.defined { s with monitor := s.monitor.wake woken })

end

/-- Everybody is released once the Done that brought the count to zero has returned, and nobody before. -/
structure Released (s : WaitGroup ι) : Prop where
  woken : s.count = 0 → s.reached = true → (∀ i, ¬ (s.threads i).Zeroing) → s.monitor.waiting = []
  returned : ∀ c ∈ s.returned, c = 0

/-- NotifyAll is called with at most one thread to wake, and every Done brings the count to zero. -/
def Orderly (s : WaitGroup ι) (a : GroupAction ι) : Prop :=
  match a with
  | .notify _ _ => s.monitor.waiting.length ≤ 1
  | .step i => s.threads i = .asserted → s.count = 1
  | _ => True

structure Invariant (s : WaitGroup ι) : Prop where
  agrees : s.monitor.Agrees GroupPc.Inside GroupPc.Parked s.threads
  waited : ∀ i, (s.threads i).InWait → s.waited = true
  reached : s.reached = true → s.count = 0
  released : s.reached = true → (∃ i, (s.threads i).WillNotify) ∨ s.monitor.waiting = [] ∧ ∀ i, s.threads i ≠ .parking
  leaving : ∀ i, s.threads i = .leaving → s.count = 0
  returned : ∀ c ∈ s.returned, c = 0

/-- Where a thread may go while the count stays as it is. -/
structure Follows (s : WaitGroup ι) (i : ι) (pc : GroupPc) : Prop where
  notify : (s.threads i).WillNotify → pc.WillNotify
  parking : pc ≠ .parking ∨ s.count ≠ 0
  waited : ¬ pc.InWait ∨ s.waited = true
  leaving : pc ≠ .leaving ∨ s.count = 0

namespace Follows
variable {s : WaitGroup ι} {i : ι} {here pc : GroupPc}

/-- Out of Wait nothing is asked but that a notification is not given up. -/
theorem outside (hi : s.threads i = here) (hn : here.WillNotify → pc.WillNotify) (hpc : ¬ pc.InWait) :
    s.Follows i pc := by
  subst hi
  refine ⟨hn,.inl ?_,.inl hpc,.inl ?_⟩
  · rintro rfl
    exact hpc (by decide)
  · rintro rfl
    exact hpc (by decide)

/-- Inside Wait it is the count that decides which way the predicate goes. -/
theorem inside (hi : s.threads i = here) (hn : ¬ here.WillNotify) (hw : s.waited = true)
    (hp : pc = .parking → s.count ≠ 0) (hl : pc = .leaving → s.count = 0) : s.Follows i pc := by
  subst hi
  exact ⟨fun h => absurd h hn,not_or_of_imp hp,.inr hw,not_or_of_imp hl⟩

end Follows

theorem ne_zero_of_pos {count : UInt32} (h : 0 < count) : count ≠ 0 := by
  rintro rfl
  exact absurd h (by decide)

namespace Invariant
variable {s t : WaitGroup ι} {i : ι} {here pc : GroupPc} {m : Monitor ι}

theorem construct (initialCount : UInt32) :
    (WaitGroup.construct (some ({} : Data ι)) initialCount).Meets Invariant where
  agrees := ⟨by simp [Monitor.free, GroupPc.Inside],by simp [Monitor.free],List.nodup_nil⟩
  waited := by simp [GroupPc.InWait]
  reached := nofun
  released := nofun
  leaving := nofun
  returned := nofun

theorem isReleased (h : s.Invariant) : s.Released where
  woken _ hr hz := by
    rcases h.released hr with ⟨j,hj⟩ | ⟨he,-⟩
    · exact absurd hj.zeroing (hz j)
    · exact he
  returned := h.returned

theorem waited_of_inWait (h : s.Invariant) (hi : s.threads i = here) (hw : here.InWait) : s.waited = true :=
  h.waited i (hi ▸ hw)

/-- While the count is not zero it may change, and reaches zero by a Done that will notify. -/
private theorem recount (h : s.Invariant) {count : UInt32} {reached : Bool} (hl : ∀ j, s.threads j ≠ .leaving)
    (hr : reached = true → count = 0 ∧ ∃ j, (s.threads j).WillNotify) : Invariant { s with count, reached } where
  agrees := h.agrees
  waited := h.waited
  reached hz := (hr hz).1
  released hz := .inl (hr hz).2
  leaving j hj := absurd hj (hl j)
  returned := h.returned

variable [DecidableEq ι]

/-- A step of one thread that leaves the count alone. -/
private theorem goto (h : s.Invariant) (hf : s.Follows i pc)
    (ha : m.Agrees GroupPc.Inside GroupPc.Parked (Function.update s.threads i pc))
    (hm : s.monitor.waiting = [] → (∀ j, s.threads j ≠ .parking) → m.waiting = []) :
    Invariant { s.goto i pc with monitor := m } where
  agrees := ha
  waited := (Function.forall_update_iff s.threads fun _ p => p.InWait → s.waited = true).mpr
    ⟨fun hw => hf.waited.resolve_left (not_not.mpr hw),fun j _ => h.waited j⟩
  reached := h.reached
  released hr := by
    rcases h.released hr with ⟨j,hj⟩ | ⟨he,hall⟩
    · refine .inl ((Function.exists_update_iff s.threads fun _ p => p.WillNotify).mpr ?_)
      rcases eq_or_ne j i with rfl | hji
      · exact .inl (hf.notify hj)
      · exact .inr ⟨j,hji,hj⟩
    · refine .inr ⟨hm he hall,(Function.forall_update_iff s.threads fun _ p => p ≠ .parking).mpr ⟨?_,fun j _ => hall j⟩⟩
      exact hf.parking.resolve_right (not_not.mpr (h.reached hr))
  leaving := (Function.forall_update_iff s.threads fun _ p => p = .leaving → s.count = 0).mpr
    ⟨fun hl => hf.leaving.resolve_left (not_not.mpr hl),fun j _ => h.leaving j⟩
  returned := h.returned

/-- A step with the mutex taken, by a thread that does not wait on the condition variable. -/
private theorem lock (h : s.Invariant) (he : s.lock i pc = some t) (hf : s.Follows i pc) (hin : pc.Inside)
    (hk : i ∉ s.monitor.waiting) : t.Invariant := by
  obtain ⟨m,hm,rfl⟩ := Option.map_eq_some_iff.mp he
  exact h.goto hf (h.agrees.lock hm hin hk) fun hwait _ => (Monitor.lock_waiting hm).trans hwait

/-- A step that takes or lets go of nothing. -/
private theorem move (h : s.Invariant) (hi : s.threads i = here) (hf : s.Follows i pc) (hin : pc.Inside ↔ here.Inside)
    (hk : ¬ here.Parked) : (s.goto i pc).Invariant :=
  h.goto (m := s.monitor) hf (h.agrees.move_of hi hin hk) fun he _ => he

private theorem unlock (h : s.Invariant) (hi : s.threads i = here) (hn : ¬ here.WillNotify) (hin : here.Inside)
    (hk : ¬ here.Parked) : (s.unlock i).Invariant := by
  subst hi
  exact h.goto (.outside rfl (fun hw => absurd hw hn) (by decide)) (h.agrees.unlock hin (by decide) hk) fun he _ => he

theorem decrement (h : s.Invariant) (hi : s.threads i = .asserted) (hc : s.count = 1) :
    (s.decrement i).Meets Invariant := by
  have hz : s.count - 1 = 0 := by rw [hc, UInt32.sub_self]
  have hne : s.count ≠ 0 := by rw [hc]; decide
  have hg : (s.goto i .zeroed).Invariant :=
    h.move hi (.outside hi (fun _ => .inl rfl) (by decide)) (by decide) (by decide)
  rw [WaitGroup.decrement, if_pos hz]
  exact hg.recount (fun j hj => hne (hg.leaving j hj)) fun _ => ⟨hz,i,.inl (Function.update_self ..)⟩

theorem stepThread (h : s.Invariant) (he : s.stepThread i = some t) : t.Invariant := by
  cases hi : s.threads i with
  | idle => simp [WaitGroup.stepThread, hi] at he
  | notifying => simp [WaitGroup.stepThread, hi] at he
  | asserted => simp [WaitGroup.stepThread, hi] at he
  | zeroed =>
    simp only [WaitGroup.stepThread, hi] at he
    exact h.lock he (.outside hi (fun _ => .inr rfl) (by decide)) (by decide) (h.agrees.not_waiting hi (by decide))
  | notified =>
    simp only [WaitGroup.stepThread, hi, Option.some_inj] at he
    exact he ▸ h.unlock hi (by decide) (by decide) (by decide)
  | entered =>
    simp only [WaitGroup.stepThread, hi] at he
    have hw : s.waited = true := h.waited_of_inWait hi (by decide)
    exact h.lock he (.inside hi (by decide) hw (by simp) (by simp)) (by decide) (h.agrees.not_waiting hi (by decide))
  | testing =>
    simp only [WaitGroup.stepThread, hi, Option.some_inj] at he
    subst he
    have hw : s.waited = true := h.waited_of_inWait hi (by decide)
    by_cases hc : s.count = 0
    · rw [if_pos hc]
      exact h.move hi (.inside hi (by decide) hw (by simp) fun _ => hc) (by decide) (by decide)
    · rw [if_neg hc]
      exact h.move hi (.inside hi (by decide) hw (fun _ => hc) (by simp)) (by decide) (by decide)
  | parking =>
    simp only [WaitGroup.stepThread, hi, Option.some_inj] at he
    subst he
    have hw : s.waited = true := h.waited_of_inWait hi (by decide)
    exact h.goto (.inside hi (by decide) hw (by simp) (by simp))
      (h.agrees.park (by rw [hi]; decide) (by decide) (by rw [hi]; decide) rfl) fun _ hall => absurd hi (hall i)
  | parked =>
    simp only [WaitGroup.stepThread, hi, Option.ite_none_left_eq_some] at he
    have hw : s.waited = true := h.waited_of_inWait hi (by decide)
    exact h.lock he.2 (.inside hi (by decide) hw (by simp) (by simp)) (by decide) he.1
  | leaving =>
    simp only [WaitGroup.stepThread, hi, Option.some_inj] at he
    subst he
    have hu := h.unlock hi (by decide) (by decide) (by decide)
    exact { hu with returned := List.forall_mem_append.mpr ⟨h.returned,by simpa using h.leaving i hi⟩ }

/-- With at most one thread to wake NotifyAll wakes everybody, and nobody is on the way to wait. -/
theorem notify (h : s.Invariant) {woken : List ι} (hi : s.threads i = .notifying) (hs : s.monitor.Signals woken)
    (ho : s.monitor.waiting.length ≤ 1) : Invariant { s.goto i .notified with monitor := s.monitor.wake woken } where
  agrees := (h.agrees.wake woken).move_of hi (by decide) (by decide)
  waited := (Function.forall_update_iff s.threads fun _ p => p.InWait → s.waited = true).mpr
    ⟨fun hw => absurd hw (by decide),fun j _ => h.waited j⟩
  reached := h.reached
  released _ := by
    refine .inr ⟨(Monitor.signal_wakes_all_iff _ h.agrees.nodup).mpr ho woken hs,?_⟩
    refine (Function.forall_update_iff s.threads fun _ p => p ≠ .parking).mpr ⟨by decide,fun j hji hj => ?_⟩
    exact hji (h.agrees.only (by rw [hj]; decide) (by rw [hi]; decide))
  leaving := (Function.forall_update_iff s.threads fun _ p => p = .leaving → s.count = 0).mpr
    ⟨fun hl => absurd hl (by decide),fun j _ => h.leaving j⟩
  returned := h.returned

theorem step (h : s.Invariant) {a : GroupAction ι} {e : Execution (WaitGroup ι)} (ha : s.Orderly a)
    (he : s.step a = some e) : e.Meets Invariant := by
  cases a with
  | add count =>
    obtain ⟨hc,he⟩ := Option.ite_none_right_eq_some.mp he
    cases he
    have hl : ∀ j, s.threads j ≠ .leaving := by
      intro j hj
      rcases hc with hc | ⟨-,hw⟩
      · exact ne_zero_of_pos hc (h.leaving j hj)
      · have hj' := h.waited_of_inWait hj (by decide)
        simp [hw] at hj'
    have hr : s.reached = false := by
      rcases hc with hc | ⟨hr,-⟩
      · by_contra hr
        exact ne_zero_of_pos hc (h.reached (by simpa using hr))
      · exact hr
    exact h.recount hl fun hr' => by simp [hr] at hr'
  | done i =>
    obtain ⟨hi,he⟩ := Option.ite_none_right_eq_some.mp he
    cases he
    exact h.move hi (.outside hi (by decide) (by decide)) (by decide) (by decide)
  | wait i =>
    obtain ⟨hi,he⟩ := Option.ite_none_right_eq_some.mp he
    cases he
    have hg : Invariant { s with waited := true } := { h with waited := fun _ _ => rfl }
    have hi' : ({ s with waited := true } : WaitGroup ι).threads i = .idle := hi
    exact hg.move hi' (.inside hi' (by decide) rfl (by simp) (by simp)) (by decide) (by decide)
  | step i =>
    simp only [WaitGroup.step] at he
    split at he
    · rename_i hi
      cases he
      exact h.decrement hi (ha hi)
    · obtain ⟨t,ht,rfl⟩ := Option.map_eq_some_iff.mp he
      exact h.stepThread ht
  | notify i woken =>
    obtain ⟨hi,he⟩ := Option.ite_none_right_eq_some.mp he
    obtain ⟨m,hm,rfl⟩ := Option.map_eq_some_iff.mp he
    obtain ⟨hs,hm⟩ := Option.ite_none_right_eq_some.mp hm
    cases hm
    exact h.notify hi hs ha
  | spurious woken =>
    cases he
    refine { h with agrees := h.agrees.wake woken, released := fun hr => (h.released hr).imp_right fun hw => ?_ }
    exact ⟨by simp [Monitor.wake, hw.1],hw.2⟩

end Invariant
end WaitGroup

/-- The runs of a program that starts with the construction of a WaitGroup. -/
def groupMachine {ι : Type*} [DecidableEq ι] (constructed : Execution (WaitGroup ι)) :
    Machine (Execution (WaitGroup ι)) (GroupAction ι) := Execution.machine constructed WaitGroup.step

namespace WaitGroup

/-- No run gets past the constructor, whatever the count, so that in none anybody is released. -/
theorem never_released {ι : Type*} [DecidableEq ι] (initialCount : UInt32) :
    (∀ e : Execution (WaitGroup ι), (groupMachine (new initialCount)).Reachable Machine.Free e ↔ e = .undefined) ∧
      ¬∀ e : Execution (WaitGroup ι), (groupMachine (new initialCount)).Reachable Machine.Free e → e.Meets Released :=
  ⟨fun _ => Execution.reachable_undefined_iff,fun h => h _ (Execution.reachable_undefined_iff.mpr rfl)⟩

/-- A group for two threads with a count of one. -/
theorem constructor_undefined : ¬∀ e : Execution (WaitGroup (Fin 2)),
    (groupMachine (new 1)).Reachable Machine.Free e → e.Meets Released :=
  fun h => h _ (Execution.reachable_undefined_iff.mpr rfl)

/-- Were the Data allocated, everybody would be released in every orderly run, and only at zero. -/
theorem released_of_orderly {ι : Type*} [DecidableEq ι] {initialCount : UInt32} {e : Execution (WaitGroup ι)}
    (h : (groupMachine (construct (some {}) initialCount)).Reachable (fun e a => e.Meets fun s => s.Orderly a) e) :
    e.Meets Released := by
  have hi : e.Meets Invariant :=
    Execution.meets_of_reachable h (.construct initialCount) fun s a u hs ha he => hs.step ha he
  cases e with
  | defined s => exact Invariant.isReleased hi
  | undefined => exact hi

/-- But of two threads that wait for a count of one, the one signal of NotifyAll can leave one behind. -/
example : ((groupMachine (construct (some {}) 1)).run Machine.Free (construct (some {}) 1)
    [.wait 0, .step 0, .step 0, .step 0, .wait 1, .step 1, .step 1, .step 1, .done 2, .step 2, .step 2, .notify 2 [0],
      .step 2]).any (fun e => decide (e.Meets fun s : WaitGroup (Fin 3) => s.count = 0 ∧ s.reached = true ∧
        (∀ i, ¬ (s.threads i).Zeroing) ∧ s.monitor.waiting = [1])) = true := by
  decide +kernel

end WaitGroup
end UServer.Concurrency
