import Mathlib.Logic.Function.Basic

/-! Two tables that look each other's entries up, under insertion and removal. -/
namespace UServer.Library
variable {α β : Type*}

/-- What the first table finds for a key, the second takes back to that key. -/
def Retraces (f : α → Option β) (g : β → Option α) : Prop := ∀ a b, f a = some b → g b = some a

section Update
variable [DecidableEq α] {f : α → Option β} {a x : α} {b y : β}

theorem update_some_cases (h : Function.update f a (some b) x = some y) : x = a ∧ y = b ∨ x ≠ a ∧ f x = some y := by
  by_cases hx : x = a
  · rw [hx, Function.update_self] at h
    exact .inl ⟨hx,(Option.some_inj.mp h).symm⟩
  · rw [Function.update_of_ne hx] at h
    exact .inr ⟨hx,h⟩

theorem update_none_cases (h : Function.update f a none x = some y) : x ≠ a ∧ f x = some y := by
  have hx : x ≠ a := by
    rintro rfl
    rw [Function.update_self] at h
    cases h
  rw [Function.update_of_ne hx] at h
  exact ⟨hx,h⟩

end Update

namespace Retraces

theorem empty (g : β → Option α) : Retraces (fun _ => none) g := nofun

variable {f : α → Option β} {g : β → Option α} {a : α} {b : β} [DecidableEq β]

/-- A value that is found nowhere may be given a key. -/
theorem update_right (h : Retraces f g) (hb : g b = none) : Retraces f (Function.update g b (some a)) := by
  intro x y hxy
  have hy : y ≠ b := by
    rintro rfl
    cases hb.symm.trans (h x y hxy)
  rw [Function.update_of_ne hy]
  exact h x y hxy

variable [DecidableEq α]

theorem insert (h : Retraces f g) (hb : g b = none) :
    Retraces (Function.update f a (some b)) (Function.update g b (some a)) := by
  intro x y hxy
  rcases update_some_cases hxy with ⟨rfl,rfl⟩ | ⟨-,hxy⟩
  · exact Function.update_self ..
  · exact h.update_right hb x y hxy

theorem erase (h : Retraces f g) (hb : g b = some a) : Retraces (Function.update f a none) (Function.update g b none) := by
  intro x y hxy
  obtain ⟨hx,hxy⟩ := update_none_cases hxy
  have hy : y ≠ b := by
    rintro rfl
    exact hx (Option.some_inj.mp ((h x y hxy).symm.trans hb))
  rw [Function.update_of_ne hy]
  exact h x y hxy

end Retraces
end UServer.Library
