import Mathlib.Logic.Function.Basic
import Mathlib.Data.List.Nodup
import Mathlib.Tactic

/-! A mutex with a condition variable, shared by any number of threads: who holds the one, and who waits on the other
and was not woken. Which threads a wake-up reaches is chosen outside, so that it may be spurious, or of more than one. -/
namespace UServer.Library

structure Monitor (ι : Type*) where
  holder : Option ι
  waiting : List ι
  deriving DecidableEq

namespace Monitor
variable {ι : Type*} (m : Monitor ι) (i : ι)

def free : Monitor ι := ⟨none,[]⟩

def lock : Option (Monitor ι) := if m.holder = none then some { m with holder := some i } else none

theorem lock_waiting {m m' : Monitor ι} {i : ι} (h : m.lock i = some m') : m'.waiting = m.waiting := by
  obtain ⟨-,h⟩ := Option.ite_none_right_eq_some.mp h
  cases h
  rfl

def unlock : Monitor ι := { m with holder := none }

/-- Let go of the mutex and wait. -/
def park : Monitor ι := ⟨none,i :: m.waiting⟩

def broadcast : Monitor ι := { m with waiting := [] }

variable [DecidableEq ι]

def wake (woken : List ι) : Monitor ι := { m with waiting := m.waiting.filter fun j => j ∉ woken }

theorem wake_ne_nil {m : Monitor ι} {woken : List ι} (h : (m.wake woken).waiting ≠ []) : m.waiting ≠ [] := by
  intro hn
  simp [wake, hn] at h

/-- What one signal may wake: some of those that wait, at least one if there is any. -/
def Signals (woken : List ι) : Prop := (∀ j ∈ woken, j ∈ m.waiting) ∧ (m.waiting ≠ [] → woken ≠ [])

instance (woken : List ι) : Decidable (m.Signals woken) := inferInstanceAs (Decidable (_ ∧ _))

/-- A signal is sure to wake everybody exactly when at most one waits. -/
theorem signal_wakes_all_iff (hn : m.waiting.Nodup) :
    (∀ woken, m.Signals woken → (m.wake woken).waiting = []) ↔ m.waiting.length ≤ 1 := by
  constructor
  · intro h
    cases hw : m.waiting with
    | nil => simp
    | cons a rest =>
      have ha := h [a] ⟨by simp [hw],by simp⟩
      rw [hw, List.nodup_cons] at hn
      cases rest with
      | nil => simp
      | cons b rest =>
        have hb : b ∈ (m.wake [a]).waiting := by
          have hne : b ≠ a := by
            rintro rfl
            exact hn.1 (by simp)
          simp [wake, hw, hne]
        rw [ha] at hb
        cases hb
  · intro h woken hs
    cases hw : m.waiting with
    | nil => simp [wake, hw]
    | cons a rest =>
      have hr : rest = [] := by simpa [hw] using h
      obtain ⟨b,hb⟩ := List.exists_mem_of_ne_nil _ (hs.2 (by simp [hw]))
      have hab : b = a := by simpa [hw, hr] using hs.1 b hb
      simp [wake, hw, hr, ← hab, hb]

end Monitor

/-- The monitor agrees with where the threads are: the one inside holds the mutex, and who waits is parked. -/
structure Monitor.Agrees {ι π : Type*} (inside parked : π → Prop) (m : Monitor ι) (threads : ι → π) : Prop where
  holder : ∀ i, m.holder = some i ↔ inside (threads i)
  waiting : ∀ i ∈ m.waiting, parked (threads i)
  nodup : m.waiting.Nodup

namespace Monitor.Agrees
variable {ι π : Type*} {inside parked : π → Prop} {m m' : Monitor ι} {threads : ι → π} {i j : ι} {pc : π}

theorem only (h : Agrees inside parked m threads) (hi : inside (threads i)) (hj : inside (threads j)) : i = j :=
  Option.some_inj.mp (((h.holder i).mpr hi).symm.trans ((h.holder j).mpr hj))

/-- Who is not parked does not wait. -/
theorem not_waiting (h : Agrees inside parked m threads) {here : π} (hi : threads i = here) (hk : ¬ parked here) :
    i ∉ m.waiting :=
  fun hm => hk (hi ▸ h.waiting i hm)

theorem broadcast (h : Agrees inside parked m threads) : Agrees inside parked m.broadcast threads :=
  ⟨h.holder,by simp [Monitor.broadcast],List.nodup_nil⟩

variable [DecidableEq ι]

theorem wake (h : Agrees inside parked m threads) (woken : List ι) : Agrees inside parked (m.wake woken) threads :=
  ⟨h.holder,fun j hj => h.waiting j (List.mem_of_mem_filter hj),h.nodup.filter _⟩

/-- A move that neither takes nor lets go of the mutex, by a thread that does not wait or goes on waiting. -/
theorem move (h : Agrees inside parked m threads) (hi : inside pc ↔ inside (threads i)) (hw : i ∈ m.waiting → parked pc) :
    Agrees inside parked m (Function.update threads i pc) := by
  refine ⟨fun j => ?_,fun j hj => ?_,h.nodup⟩
  · rcases eq_or_ne j i with rfl | hji
    · rw [Function.update_self, hi]
      exact h.holder j
    · rw [Function.update_of_ne hji]
      exact h.holder j
  · rcases eq_or_ne j i with rfl | hji
    · rw [Function.update_self]
      exact hw hj
    · rw [Function.update_of_ne hji]
      exact h.waiting j hj

/-- Such a move by a thread that is not parked. -/
theorem move_of (h : Agrees inside parked m threads) {here : π} (hi : threads i = here) (hin : inside pc ↔ inside here)
    (hk : ¬ parked here) : Agrees inside parked m (Function.update threads i pc) :=
  h.move (hi ▸ hin) fun hm => absurd hm (h.not_waiting hi hk)

theorem lock (h : Agrees inside parked m threads) (hm : m.lock i = some m') (hi : inside pc) (hw : i ∉ m.waiting) :
    Agrees inside parked m' (Function.update threads i pc) := by
  obtain ⟨hn,hm⟩ := Option.ite_none_right_eq_some.mp hm
  cases hm
  refine ⟨fun j => ?_,fun j hj => ?_,h.nodup⟩
  · rcases eq_or_ne j i with rfl | hji
    · simp [hi]
    · rw [Function.update_of_ne hji, ← h.holder j, hn]
      simp [hji.symm]
  · rw [Function.update_of_ne (ne_of_mem_of_not_mem hj hw)]
    exact h.waiting j hj

private theorem release (h : Agrees inside parked m threads) (hi : inside (threads i)) (hpc : ¬ inside pc) (j : ι) :
    none = some j ↔ inside (Function.update threads i pc j) := by
  refine iff_of_false (by simp) ?_
  rcases eq_or_ne j i with rfl | hji
  · rwa [Function.update_self]
  · rw [Function.update_of_ne hji]
    exact fun hj => hji (h.only hj hi)

theorem unlock (h : Agrees inside parked m threads) (hi : inside (threads i)) (hpc : ¬ inside pc)
    (hx : ¬ parked (threads i)) : Agrees inside parked m.unlock (Function.update threads i pc) := by
  refine ⟨release h hi hpc,fun j hj => ?_,h.nodup⟩
  have hji : j ≠ i := by
    rintro rfl
    exact hx (h.waiting j hj)
  rw [Function.update_of_ne hji]
  exact h.waiting j hj

theorem park (h : Agrees inside parked m threads) (hi : inside (threads i)) (hpc : ¬ inside pc)
    (hx : ¬ parked (threads i)) (hp : parked pc) : Agrees inside parked (m.park i) (Function.update threads i pc) := by
  have hw : i ∉ m.waiting := fun hm => hx (h.waiting i hm)
  refine ⟨release h hi hpc,fun j hj => ?_,List.nodup_cons.mpr ⟨hw,h.nodup⟩⟩
  rcases eq_or_ne j i with rfl | hji
  · rwa [Function.update_self]
  · rw [Function.update_of_ne hji]
    exact h.waiting j ((List.mem_cons.mp hj).resolve_left hji)

end Monitor.Agrees
end UServer.Library
