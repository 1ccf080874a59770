import UServer.Concurrency.Event
import UServer.Library.Tally

/-! The threads of an Event left to themselves: the calls under way come to rest after a bounded number of steps, and
then nobody waits for an event that is set. -/
namespace UServer.Concurrency
open Library

/-- The threads go on in their calls; no call begins, no time passes, and nobody is woken for nothing. -/
def Proceeds {ι : Type*} (_ : Event ι) : EventAction ι → Prop
  | .step _ => True
  | .tick _ | .call _ _ | .timeout _ | .spurious _ => False

instance {ι : Type*} (s : Event ι) (a : EventAction ι) : Decidable (Proceeds s a) :=
  match a with
  | .step _ => .isTrue trivial
  | .tick _ | .call _ _ | .timeout _ | .spurious _ => .isFalse id

namespace EventPc

def Setting (pc : EventPc) : Prop := pc = .set ∨ pc = .setLocked

def Resetting (pc : EventPc) : Prop := pc = .reset ∨ pc = .resetLocked

instance : DecidablePred Setting := fun _ => inferInstanceAs (Decidable (_ ∨ _))

instance : DecidablePred Resetting := fun _ => inferInstanceAs (Decidable (_ ∨ _))

/-- A thread that gets the mutex goes on with the same call. -/
theorem setting_of_locked {pc next : EventPc} (h : pc.locked = some next) :
    (next.Resetting → pc.Resetting) ∧ (pc.Setting → next.Setting) := by
  cases pc with
  | set | reset | entered w | parked w =>
    cases h
    simp [Resetting, Setting]
  | _ => cases h

/-- The steps a thread has before it until its call ends or it waits; a Set has those of the threads it may wake. -/
def rank (threads : ℕ) (waits : Bool) : EventPc → ℕ
  | .idle => 0
  | .leaving => 1
  | .testing _ | .gaveUp _ _ _ | .resetLocked => 2
  | .parked _ => if waits then 0 else 3
  | .entered _ | .reset => 3
  | .setLocked => 3 * threads + 2
  | .set => 3 * threads + 3

theorem rank_parked_le (n : ℕ) (waits : Bool) (pc : EventPc) : pc.rank n false ≤ pc.rank n waits + 3 := by
  cases pc with
  | parked w => simp [rank]
  | _ => simp [rank]

end EventPc

namespace Event
variable {ι : Type*} [DecidableEq ι] {s t : Event ι} {i : ι}

def waits (s : Event ι) (i : ι) : Bool := decide (i ∈ s.monitor.waiting)

/-- What the threads have before them. -/
def work [Fintype ι] (s : Event ι) : ℕ := ∑ i, (s.threads i).rank (Fintype.card ι) (s.waits i)

/-- A step of one thread that leaves the others where they are, waiting or not. -/
theorem work_lt_of_step [Fintype ι] {pc : EventPc} {here : EventPc} (hp : t.threads = Function.update s.threads i pc)
    (hw : ∀ j ≠ i, t.waits j = s.waits j) (hi : s.threads i = here)
    (hlt : pc.rank (Fintype.card ι) (t.waits i) < here.rank (Fintype.card ι) (s.waits i)) : t.work < s.work := by
  refine Finset.sum_lt_sum (fun j _ => ?_) ⟨i,Finset.mem_univ i,?_⟩
  · by_cases hj : j = i
    · subst hj
      rw [hp, Function.update_self, hi]
      exact hlt.le
    · rw [hp, Function.update_of_ne hj, hw j hj]
  · rw [hp, Function.update_self, hi]
    exact hlt

/-- A Set that wakes everybody has had their steps before it. -/
theorem work_lt_of_set [Fintype ι] (hi : s.threads i = .setLocked) (hp : t.threads = Function.update s.threads i .leaving)
    (hw : t.monitor.waiting = []) : t.work < s.work := by
  have hle : ∀ j, (t.threads j).rank (Fintype.card ι) (t.waits j) + (if j = i then 3 * Fintype.card ι + 1 else 0) ≤
      (s.threads j).rank (Fintype.card ι) (s.waits j) + 3 := by
    intro j
    have hnone : t.waits j = false := by simp [waits, hw]
    rw [hp, hnone]
    by_cases hj : j = i
    · subst hj
      rw [Function.update_self, if_pos rfl, hi]
      simp only [EventPc.rank]
      omega
    · rw [Function.update_of_ne hj, if_neg hj, Nat.add_zero]
      exact EventPc.rank_parked_le _ _ _
  have hsum := Finset.sum_le_sum fun j (_ : j ∈ Finset.univ) => hle j
  rw [Finset.sum_add_distrib, Finset.sum_add_distrib, Finset.sum_ite_eq' Finset.univ i, if_pos (Finset.mem_univ i),
    Finset.sum_const, Finset.card_univ, smul_eq_mul] at hsum
  rw [work, work]
  omega

theorem proceeds [Fintype ι] (h : s.Invariant) {a : EventAction ι} (ha : Proceeds s a) (he : s.step a = some t) :
    t.work < s.work := by
  cases step_turn he with
  | tick | call | timeout | spurious => exact ha.elim
  | @lock i pc m hl hw hm =>
    have hwait : m.waiting = s.monitor.waiting := Monitor.lock_waiting hm
    have hnot : s.waits i = false := decide_eq_false fun hi => hw (h.agrees.waiting i hi) hi
    refine work_lt_of_step rfl (fun j _ => by simp [waits, hwait]) rfl ?_
    have hsame : Event.waits { s.goto i pc with monitor := m } i = false := by simpa [waits, goto, hwait] using hnot
    rw [hsame, hnot]
    cases hi : s.threads i with
    | set | reset | entered w | parked w =>
      rw [hi] at hl
      cases hl
      simp [EventPc.rank]
    | _ =>
      rw [hi] at hl
      cases hl
  | set hi => exact work_lt_of_set hi rfl rfl
  | reset hi => exact work_lt_of_step rfl (fun _ _ => rfl) hi (by simp [EventPc.rank])
  | take hi hs => exact work_lt_of_step rfl (fun _ _ => rfl) hi (by simp [EventPc.rank])
  | @park i w hi hs =>
    refine work_lt_of_step rfl (fun j hj => ?_) hi ?_
    · simp [waits, park, Monitor.park, hj]
    · simp [waits, park, Monitor.park, EventPc.rank]
  | refuse hi hs hd hv => exact work_lt_of_step rfl (fun _ _ => rfl) hi (by simp [EventPc.rank])
  | gaveUp hi hm =>
    have hwait := Monitor.lock_waiting hm
    refine work_lt_of_step rfl (fun j _ => by simp [waits, hwait]) hi ?_
    simp [EventPc.rank]
  | leave hi => exact work_lt_of_step rfl (fun _ _ => rfl) hi (by simp [EventPc.rank])

/-- Where no thread can go on, each has returned or waits for an event that is not set. -/
theorem at_rest (h : s.Invariant) (hrest : ∀ i, s.step (.step i) = none) (i : ι) :
    s.threads i = .idle ∨ (s.threads i).Parked ∧ i ∈ s.monitor.waiting ∧ s.eventStatus = false := by
  have hfree : s.monitor.holder = none := by
    cases hn : s.monitor.holder with
    | none => rfl
    | some j =>
      have hj := (h.agrees.holder j).mp hn
      have hnone := hrest j
      cases hpc : s.threads j <;> simp [hpc, EventPc.Inside] at hj <;> simp [step, stepThread, hpc] at hnone
  have hnone := hrest i
  cases hpc : s.threads i with
  | idle => exact .inl rfl
  | parked w =>
    refine .inr ⟨trivial,?_⟩
    have hw : i ∈ s.monitor.waiting := by
      by_contra hw
      simp [step, stepThread, hpc, hw, lock, Monitor.lock, hfree] at hnone
    exact ⟨hw,h.unset (List.ne_nil_of_mem hw)⟩
  | _ => simp [step, stepThread, hpc, lock, Monitor.lock, hfree] at hnone

/-- An event that stays set once it is: it resets by Reset alone, nobody is in Reset, and it is set or about to be. -/
structure StaysSet (s : Event ι) : Prop where
  manual : s.manualReset = true
  unreset : ∀ i, ¬ (s.threads i).Resetting
  set : s.eventStatus = true ∨ ∃ i, (s.threads i).Setting

private theorem StaysSet.move (h : s.StaysSet) {pc here : EventPc} (hm : t.manualReset = s.manualReset)
    (hp : t.threads = Function.update s.threads i pc) (hi : s.threads i = here) (hr : ¬ pc.Resetting)
    (hs : here.Setting → pc.Setting ∨ t.eventStatus = true) (he : s.eventStatus = true → t.eventStatus = true) :
    t.StaysSet := by
  refine ⟨hm.trans h.manual,fun j => ?_,?_⟩
  · by_cases hj : j = i
    · subst hj
      rwa [hp, Function.update_self]
    · rw [hp, Function.update_of_ne hj]
      exact h.unreset j
  · rcases h.set with hset | ⟨j,hj⟩
    · exact .inl (he hset)
    · by_cases hji : j = i
      · subst hji
        exact (hs (hi ▸ hj)).symm.imp_right fun hpc => ⟨j,by rwa [hp, Function.update_self]⟩
      · exact .inr ⟨j,by rwa [hp, Function.update_of_ne hji]⟩

theorem StaysSet.step (h : s.StaysSet) {a : EventAction ι} (ha : Proceeds s a) (he : s.step a = some t) :
    t.StaysSet := by
  cases step_turn he with
  | tick | call | timeout | spurious => exact ha.elim
  | @lock i pc m hl hw hm =>
    obtain ⟨hr,hset⟩ := EventPc.setting_of_locked hl
    exact h.move rfl rfl rfl (fun hpc => h.unreset i (hr hpc)) (fun hi => .inl (hset hi)) id
  | set hi => exact h.move rfl rfl hi (by simp [EventPc.Resetting]) (fun _ => .inr rfl) fun _ => rfl
  | @reset i hi => exact absurd (.inr hi) (h.unreset i)
  | take hi hs =>
    refine h.move rfl rfl hi (by simp [EventPc.Resetting]) (by simp [EventPc.Setting]) fun _ => ?_
    simp [h.manual, hs]
  | park hi hs => exact h.move rfl rfl hi (by simp [EventPc.Resetting]) (by simp [EventPc.Setting]) id
  | refuse hi hs hd hv => exact h.move rfl rfl hi (by simp [EventPc.Resetting]) (by simp [EventPc.Setting]) id
  | gaveUp hi hm => exact h.move rfl rfl hi (by simp [EventPc.Resetting]) (by simp [EventPc.Setting]) id
  | leave hi => exact h.move rfl rfl hi (by simp [EventPc.Resetting]) (by simp [EventPc.Setting]) id

end Event
end UServer.Concurrency
