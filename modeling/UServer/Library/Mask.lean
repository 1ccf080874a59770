import Mathlib.Tactic

/-! Bit masks as flags: when a mask meets another one, and how the union and the
difference of masks change that. -/
namespace UServer.Library
variable {w : Nat}

/-- The C test ff & e, read as a truth value. -/
def has (ff e : BitVec w) : Bool := ff &&& e != 0#w

theorem has_eq_false_iff (ff e : BitVec w) : has ff e = false ↔ ff &&& e = 0#w := by
  simp [has]

@[simp] theorem zero_has (e : BitVec w) : has (0#w) e = false := by
  simp [has]

theorem has_or (a b e : BitVec w) : has (a ||| b) e = (has a e || has b e) := by
  rw [Bool.eq_iff_iff]
  simp only [has, BitVec.and_or_distrib_right, bne_iff_ne, ne_eq, BitVec.or_eq_zero_iff, not_and_or, Bool.or_eq_true]

theorem has_or_right (a b e : BitVec w) : has a (b ||| e) = (has a b || has a e) := by
  rw [Bool.eq_iff_iff]
  simp only [has, BitVec.and_or_distrib_left, bne_iff_ne, ne_eq, BitVec.or_eq_zero_iff, not_and_or, Bool.or_eq_true]

theorem and_eq_of_subset {a b : BitVec w} (h : a &&& ~~~b = 0#w) : a &&& b = a := by
  ext i hi
  have hbit := congrArg (fun x => x.getLsbD i) h
  simp [hi] at hbit ⊢
  grind

/-- A flag of a mask is a flag of every larger mask. -/
theorem has_of_subset {a b e : BitVec w} (h : a &&& ~~~b = 0#w) (ha : has a e = true) : has b e = true := by
  have hab := and_eq_of_subset h
  by_contra hn
  rw [Bool.not_eq_true, has_eq_false_iff] at hn
  rw [← hab, has, BitVec.and_assoc, hn, BitVec.and_zero] at ha
  simp at ha

theorem has_and_left (a b e : BitVec w) (h : has a e = false) : has (a &&& b) e = false := by
  rw [has_eq_false_iff] at h ⊢
  rw [BitVec.and_assoc, BitVec.and_comm b, ← BitVec.and_assoc, h, BitVec.zero_and]

/-- Clearing other bits leaves a flag as it was. -/
theorem has_of_and_left {a b e : BitVec w} (h : has (a &&& b) e = true) : has a e = true := by
  by_contra hn
  rw [has_and_left a b e ((Bool.not_eq_true _).mp hn)] at h
  cases h

/-- Keeping the bits that a flag has leaves it as it was. -/
theorem has_and_of_subset (a b e : BitVec w) (h : b &&& e = e) : has (a &&& b) e = has a e := by
  rw [has, has, BitVec.and_assoc, h]

/-- Nothing of a mask is outside a larger one. -/
theorem and_not_or (a b : BitVec w) : a &&& ~~~(a ||| b) = 0#w := by
  ext i hi
  simp only [BitVec.getElem_and, BitVec.getElem_not, BitVec.getElem_or, BitVec.getElem_zero]
  cases a[i] <;> rfl

/-- Clearing a flag's own bits puts it out. -/
theorem has_and_not_self (a b e : BitVec w) (h : e &&& ~~~b = 0#w) : has (a &&& ~~~b) e = false := by
  rw [has_eq_false_iff, BitVec.and_assoc, BitVec.and_comm (~~~b), h, BitVec.and_zero]

/-- Clearing bits that a flag does not have leaves it as it was. -/
theorem has_and_not_other (a b e : BitVec w) (h : e &&& ~~~b = e) : has (a &&& ~~~b) e = has a e := by
  rw [has, has, BitVec.and_assoc, BitVec.and_comm (~~~b), h]

end UServer.Library
