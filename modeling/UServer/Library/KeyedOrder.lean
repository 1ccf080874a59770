import Mathlib.Order.RelClasses
import Mathlib.Order.Lattice
import Mathlib.Tactic

/-! Comparison operators given by a key in a linear order: the strict part is a
strict weak order, and an equality agrees with it exactly where it decides keys. -/
namespace UServer.Library

/-- Exactly one of three statements holds. -/
def ExactlyOne (p q r : Prop) : Prop := (p ∧ ¬ q ∧ ¬ r) ∨ (¬ p ∧ q ∧ ¬ r) ∨ (¬ p ∧ ¬ q ∧ r)

namespace KeyedOrder
variable {α κ : Type*} [LinearOrder κ] {key : α → κ} {less equal : α → α → Prop}

theorem strictWeakOrder (hl : ∀ a b, less a b ↔ key a < key b) : IsStrictWeakOrder α less := by
  have hr : less = Order.Preimage key (· < ·) := by
    funext a b
    exact propext (hl a b)
  have hw : IsStrictWeakOrder κ (· < ·) := isStrictWeakOrder_of_isOrderConnected
  rw [hr]
  infer_instance

/-- Two values that neither precedes the other have the same key. -/
theorem incomparable_iff (hl : ∀ a b, less a b ↔ key a < key b) (a b : α) :
    (¬ less a b ∧ ¬ less b a) ↔ key a = key b := by
  rw [hl, hl]
  exact ⟨fun h => le_antisymm (not_lt.mp h.2) (not_lt.mp h.1), fun h => by simp [h]⟩

/-- Trichotomy at a pair says that equality holds as soon as the keys are the same. -/
theorem exactlyOne_iff (hl : ∀ a b, less a b ↔ key a < key b) (he : ∀ a b, equal a b → key a = key b) (a b : α) :
    ExactlyOne (less a b) (equal a b) (less b a) ↔ (key a = key b → equal a b) := by
  rw [← incomparable_iff hl]
  have hi : equal a b → ¬ less a b ∧ ¬ less b a := fun h => (incomparable_iff hl a b).mpr (he a b h)
  have ha : ¬ (less a b ∧ less b a) := by
    rw [hl, hl]
    exact fun h => lt_asymm h.1 h.2
  unfold ExactlyOne
  tauto

/-- So does the identification that an ordered container makes. -/
theorem incomparable_iff_equal_iff (hl : ∀ a b, less a b ↔ key a < key b)
    (he : ∀ a b, equal a b → key a = key b) (a b : α) :
    ((¬ less a b ∧ ¬ less b a) ↔ equal a b) ↔ (key a = key b → equal a b) := by
  rw [incomparable_iff hl]
  exact ⟨fun h => h.mp, fun h => ⟨h,he a b⟩⟩

end KeyedOrder
end UServer.Library
