import Mathlib.Algebra.BigOperators.Group.List.Basic
import Mathlib.Tactic

/-! Totals over the members of a list by class, and running totals in a machine word
that agree with them as long as nothing overflows. -/
namespace UServer.Library.Tally
variable {α κ : Type*} [DecidableEq κ] (cls : α → κ) (weight : α → ℕ)

/-- The total weight of the members of one class. -/
def total (k : κ) (l : List α) : ℕ := ((l.filter fun a => cls a = k).map weight).sum

@[simp] theorem total_nil (k : κ) : total cls weight k [] = 0 := rfl

theorem total_cons (k : κ) (a : α) (l : List α) :
    total cls weight k (a :: l) = (if cls a = k then weight a else 0) + total cls weight k l := by
  by_cases h : cls a = k
  · simp [total, h]
  · simp [total, h]

theorem total_perm (k : κ) {l m : List α} (h : l.Perm m) : total cls weight k l = total cls weight k m :=
  ((h.filter _).map weight).sum_eq

/-- The number of members of a class is their total with weight one. -/
theorem total_one (k : κ) (l : List α) : total cls (fun _ => 1) k l = (l.filter fun a => cls a = k).length := by
  simp [total]

private theorem sum_indicator {ks : List κ} (hn : ks.Nodup) {c : κ} (hc : c ∈ ks) (n : ℕ) :
    (ks.map fun k => if c = k then n else 0).sum = n := by
  induction ks with
  | nil => cases hc
  | cons k ks ih =>
    obtain ⟨hk,hn⟩ := List.nodup_cons.mp hn
    rw [List.map_cons, List.sum_cons]
    by_cases h : c = k
    · subst h
      have hz : (ks.map fun k => if c = k then n else 0) = ks.map fun _ => 0 :=
        List.map_congr_left fun j hj => if_neg (ne_of_mem_of_not_mem hj hk).symm
      rw [if_pos rfl, hz]
      simp
    · rw [if_neg h, Nat.zero_add]
      exact ih hn (List.mem_of_ne_of_mem h hc)

/-- Over classes that cover the list the totals add up to the weight of the whole list. -/
theorem sum_total {ks : List κ} (hn : ks.Nodup) {l : List α} (hl : ∀ a ∈ l, cls a ∈ ks) :
    (ks.map fun k => total cls weight k l).sum = (l.map weight).sum := by
  induction l with
  | nil => simp
  | cons a l ih =>
    simp only [total_cons]
    rw [List.sum_map_add, sum_indicator hn (hl a List.mem_cons_self),
      ih fun b hb => hl b (List.mem_cons_of_mem a hb), List.map_cons, List.sum_cons]

theorem total_le (k : κ) (l : List α) : total cls weight k l ≤ (l.map weight).sum := by
  induction l with
  | nil => simp
  | cons a l ih =>
    rw [total_cons, List.map_cons, List.sum_cons]
    split <;> omega

end Tally

/-- In a list whose keys are distinct a member and the rest are told apart by the key. -/
theorem perm_cons_filter_key {α κ : Type*} [DecidableEq κ] {key : α → κ} {l : List α} {a : α}
    (hn : (l.map key).Nodup) (ha : a ∈ l) : l.Perm (a :: l.filter fun b => key b ≠ key a) := by
  induction l with
  | nil => cases ha
  | cons b l ih =>
    obtain ⟨hb,hn⟩ := List.nodup_cons.mp hn
    rcases List.mem_cons.mp ha with rfl | hm
    · rw [List.filter_cons_of_neg (by simp), List.filter_eq_self.mpr]
      intro c hc
      have hne := ne_of_mem_of_not_mem (List.mem_map_of_mem hc) hb
      simpa using hne
    · have hne := ne_of_mem_of_not_mem (List.mem_map_of_mem hm) hb
      rw [List.filter_cons_of_pos (by simpa using hne.symm)]
      exact ((ih hn hm).cons b).trans (.swap a b _)

/-- A sum over the members of a family, one of which changes. -/
theorem sum_update {ι π : Type*} [Fintype ι] [DecidableEq ι] (weight : π → ℕ) (f : ι → π) (i : ι) (x : π) :
    ∑ j, weight (Function.update f i x j) + weight (f i) = ∑ j, weight (f j) + weight x := by
  have hrest : ∑ j ∈ Finset.univ.erase i, weight (Function.update f i x j) = ∑ j ∈ Finset.univ.erase i, weight (f j) :=
    Finset.sum_congr rfl fun j hj => by rw [Function.update_of_ne (Finset.ne_of_mem_erase hj)]
  rw [← Finset.add_sum_erase _ _ (Finset.mem_univ i), ← Finset.add_sum_erase _ (fun j => weight (f j))
    (Finset.mem_univ i), hrest, Function.update_self]
  omega

/-- A sum run in 64-bit words is the sum modulo the word size. -/
theorem foldl_add_ofNat {α : Type*} (f : α → UInt64) (l : List α) (n : ℕ) :
    l.foldl (fun out a => out + f a) (UInt64.ofNat n) = UInt64.ofNat (n + (l.map fun a => (f a).toNat).sum) := by
  induction l generalizing n with
  | nil => simp
  | cons a l ih =>
    have h : UInt64.ofNat n + f a = UInt64.ofNat (n + (f a).toNat) := by simp
    rw [List.foldl_cons, h, ih, List.map_cons, List.sum_cons, Nat.add_assoc]

end UServer.Library
