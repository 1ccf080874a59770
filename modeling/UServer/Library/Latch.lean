import Mathlib.Data.List.Count
import Mathlib.Tactic

/-! A flag that is raised and lowered, and taken when it is raised. What a log of these, newest entry first, says about
the flag, and which raise pays for each take. -/
namespace UServer.Library.Latch

inductive Op
  | raise
  | lower
  | take
  deriving DecidableEq

/-- The flag after a log: only the newest entry counts. -/
def flag (initial : Bool) : List Op → Bool
  | [] => initial
  | op :: _ => decide (op = .raise)

@[simp] theorem flag_cons (initial : Bool) (op : Op) (log : List Op) :
    flag initial (op :: log) = decide (op = .raise) := rfl

/-- Every take found the flag raised. -/
def Served (initial : Bool) : List Op → Prop
  | [] => True
  | op :: log => (op = .take → flag initial log = true) ∧ Served initial log

variable {initial : Bool} {log : List Op}

theorem flag_iff : flag initial log = true ↔ (∃ older, log = .raise :: older) ∨ log = [] ∧ initial = true := by
  cases log with
  | nil => simp [flag]
  | cons op log => simp

/-- A raised flag stays raised until it is taken or lowered. -/
theorem flag_append {new : List Op} (h : flag initial log = true) (ht : .take ∉ new) (hl : .lower ∉ new) :
    flag initial (new ++ log) = true := by
  cases new with
  | nil => exact h
  | cons op new =>
    cases op with
    | raise => rfl
    | lower => exact absurd List.mem_cons_self hl
    | take => exact absurd List.mem_cons_self ht

namespace Served

/-- No more takes than raises, one more if the flag was raised at first, and one less while it is. -/
theorem count_take_le (h : Served initial log) :
    log.count .take + (flag initial log).toNat ≤ log.count .raise + initial.toNat := by
  induction log with
  | nil => simp [flag]
  | cons op log ih =>
    have hn := ih h.2
    cases op with
    | raise =>
      have hb := Bool.toNat_le (flag initial log)
      simp
      omega
    | lower =>
      simp
      omega
    | take =>
      rw [h.1 rfl, Bool.toNat_true] at hn
      simpa using hn

theorem append {newer : List Op} (h : Served initial (newer ++ log)) : Served initial log := by
  induction newer with
  | nil => exact h
  | cons op newer ih => exact ih h.2

/-- The entry before a take is the raise that pays for it, so that nothing lowered or took the flag in between. -/
theorem paid {newer older : List Op} (h : Served initial log) (hl : log = newer ++ .take :: older) :
    (∃ rest, older = .raise :: rest) ∨ older = [] ∧ initial = true := by
  subst hl
  exact flag_iff.mp (h.append.1 rfl)

end Served
end UServer.Library.Latch
