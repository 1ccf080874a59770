import Mathlib.Tactic

/-! A recursive mutex: its owner may lock it again, and has to unlock it as often. -/
namespace UServer.Library

/-- The owner, with the number of its locks beyond the first. -/
abbrev RecursiveLock (ι : Type*) := Option (ι × ℕ)

namespace RecursiveLock
variable {ι : Type*} [DecidableEq ι]

/-- How often a thread has it locked. -/
def depth (l : RecursiveLock ι) (i : ι) : ℕ :=
  match l with
  | none => 0
  | some (j,n) => if j = i then n + 1 else 0

/-- A thread other than the owner waits. -/
def lock (l : RecursiveLock ι) (i : ι) : Option (RecursiveLock ι) :=
  match l with
  | none => some (some (i,0))
  | some (j,n) => if j = i then some (some (i,n + 1)) else none

/-- It does nothing for a thread that is not the owner. -/
def unlock (l : RecursiveLock ι) (i : ι) : RecursiveLock ι :=
  match l with
  | none => none
  | some (j,0) => if j = i then none else some (j,0)
  | some (j,n + 1) => if j = i then some (j,n) else some (j,n + 1)

variable {l l' : RecursiveLock ι} {i j : ι}

theorem owner_of_depth (h : 0 < l.depth i) : ∃ n, l = some (i,n) := by
  unfold depth at h
  split at h
  · cases h
  · rename_i j n
    by_cases hj : j = i
    · exact ⟨n,by rw [hj]⟩
    · rw [if_neg hj] at h
      cases h

theorem only (hi : 0 < l.depth i) (hj : 0 < l.depth j) : i = j := by
  obtain ⟨n,rfl⟩ := owner_of_depth hi
  obtain ⟨m,he⟩ := owner_of_depth hj
  exact congrArg Prod.fst (Option.some.inj he)

theorem depth_lock (h : l.lock i = some l') (j : ι) : l'.depth j = l.depth j + if j = i then 1 else 0 := by
  unfold lock at h
  split at h
  · cases h
    by_cases hj : j = i
    · simp [depth, hj]
    · simp [depth, hj, Ne.symm hj]
  · rename_i k n
    obtain ⟨rfl,h⟩ := Option.ite_none_right_eq_some.mp h
    cases h
    by_cases hj : j = k
    · simp [depth, hj]
    · simp [depth, hj, Ne.symm hj]

theorem depth_unlock (h : 0 < l.depth i) (j : ι) : (l.unlock i).depth j = l.depth j - if j = i then 1 else 0 := by
  obtain ⟨n,rfl⟩ := owner_of_depth h
  by_cases hj : j = i
  · cases n <;> simp [unlock, depth, hj]
  · cases n <;> simp [unlock, depth, Ne.symm hj, hj]

/-- Who need not wait: a thread that has it, or any if nobody has. -/
theorem lock_isSome (h : ∀ j, 0 < l.depth j → j = i) : (l.lock i).isSome = true := by
  unfold lock
  split
  · rfl
  · rename_i j n
    have hj : j = i := h j (by simp [depth])
    rw [if_pos hj]
    rfl

end RecursiveLock
end UServer.Library
