import Mathlib.Algebra.BigOperators.Fin
import Mathlib.Data.Fintype.BigOperators
import Mathlib.Data.Fin.Rev
import Mathlib.Data.List.Lex
import Mathlib.Tactic

/-! Machine words as little-endian byte sequences, and the byte swap between
host and network order on a little-endian host. -/
namespace UServer.Library

abbrev Byte := Fin 256

/-- An unsigned integer of n bytes. -/
abbrev Word (n : Nat) := Fin (256^n)

instance neZero_sixteen : NeZero 16 := ⟨by decide⟩
instance neZero_byte : NeZero 256 := ⟨by decide⟩
instance neZero_word_two : NeZero (256^2) := ⟨by decide⟩
instance neZero_word_four : NeZero (256^4) := ⟨by decide⟩

variable {n : Nat}

/-- The bytes a little-endian host stores for a word, lowest address first. -/
def littleEndian : Word n ≃ (Fin n → Byte) := finFunctionFinEquiv.symm

/-- Reverse the stored bytes: ntohl and htonl at width four, ntohs and htons at two. -/
def byteSwap (x : Word n) : Word n := littleEndian.symm fun i => littleEndian x i.rev

@[simp] theorem littleEndian_byteSwap (x : Word n) (i : Fin n) :
    littleEndian (byteSwap x) i = littleEndian x i.rev := by
  simp [byteSwap]

@[simp] theorem byteSwap_byteSwap (x : Word n) : byteSwap (byteSwap x) = x := by
  apply littleEndian.injective
  funext i
  simp

theorem byteSwap_injective : Function.Injective (byteSwap (n := n)) :=
  Function.LeftInverse.injective byteSwap_byteSwap

/-- A word survives a byte swap exactly when its bytes read the same backwards. -/
theorem byteSwap_eq_self_iff (x : Word n) :
    byteSwap x = x ↔ ∀ i, littleEndian x i.rev = littleEndian x i := by
  rw [← littleEndian.injective.eq_iff, funext_iff]
  simp only [littleEndian_byteSwap]

theorem reverse_ofFn {α : Type*} (f : Fin n → α) : (List.ofFn f).reverse = List.ofFn fun i => f i.rev := by
  apply List.ext_getElem
  · simp
  · intro i hi hj
    simp only [List.getElem_reverse, List.getElem_ofFn, List.length_ofFn]
    congr 1
    simp only [Fin.ext_iff, Fin.val_rev]
    omega

/-- The same condition on the list of stored bytes. -/
theorem reverse_littleEndian_iff (x : Word n) :
    (List.ofFn (littleEndian x)).reverse = List.ofFn (littleEndian x) ↔ byteSwap x = x := by
  rw [reverse_ofFn, List.ofFn_inj, funext_iff, byteSwap_eq_self_iff]

theorem val_eq_sum (x : Word n) : x.val = ∑ i, (littleEndian x i).val * 256 ^ i.val := by
  have h : x = finFunctionFinEquiv (littleEndian x) := (Equiv.apply_symm_apply finFunctionFinEquiv x).symm
  conv_lhs => rw [h]
  rw [finFunctionFinEquiv_apply]

/-- Numbers with a digit in front of them compare by that digit first. -/
private theorem add_digit_lt_iff {a b m : ℕ} (ha : a < m) (hb : b < m) (d e : ℕ) :
    a + d * m < b + e * m ↔ d < e ∨ d = e ∧ a < b := by
  have hlt {a b d e : ℕ} (ha : a < m) (h : d < e) : a + d * m < b + e * m :=
    calc a + d * m
      _ < m + d * m := Nat.add_lt_add_right ha _
      _ = (d + 1) * m := by rw [Nat.succ_mul, Nat.add_comm]
      _ ≤ e * m := Nat.mul_le_mul_right _ h
      _ ≤ b + e * m := Nat.le_add_left _ _
  rcases lt_trichotomy d e with h | h | h
  · exact iff_of_true (hlt ha h) (.inl h)
  · simp [h]
  · refine iff_of_false (hlt hb h).not_gt ?_
    simp [h.not_gt, h.ne']

/-- Sums of digits compare as the digits do, the most significant one first. -/
private theorem sum_lt_sum_iff (f g : Fin n → Byte) : ∑ i, (f i).val * 256 ^ i.val < ∑ i, (g i).val * 256 ^ i.val ↔
    List.ofFn (fun i => f i.rev) < List.ofFn fun i => g i.rev := by
  induction n with
  | zero => simp
  | succ n ih =>
    have hlt (f : Fin n → Byte) : ∑ i, (f i).val * 256 ^ i.val < 256 ^ n := by
      rw [← finFunctionFinEquiv_apply]
      exact (finFunctionFinEquiv f).isLt
    simp only [Fin.sum_univ_castSucc, List.ofFn_succ, Fin.rev_zero, Fin.rev_succ, List.cons_lt_cons_iff,
      ← ih (fun i => f i.castSucc) fun i => g i.castSucc, Fin.val_castSucc, Fin.val_last]
    rw [add_digit_lt_iff (hlt fun i => f i.castSucc) (hlt fun i => g i.castSucc), Fin.lt_def, Fin.ext_iff]

/-- Words compare as the bytes that their swaps store. -/
theorem byteSwap_lt_byteSwap_iff (x y : Word n) :
    byteSwap x < byteSwap y ↔ List.ofFn (littleEndian x) < List.ofFn (littleEndian y) := by
  rw [Fin.lt_def, val_eq_sum, val_eq_sum, sum_lt_sum_iff]
  simp only [littleEndian_byteSwap, Fin.rev_rev]

end UServer.Library
