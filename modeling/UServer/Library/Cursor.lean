import Mathlib.Tactic

/-! A cursor into a list of distinct nodes, which the list's changes move on: what it has still to visit. -/
namespace UServer.Library.Cursor
variable {α κ : Type*} (key : α → κ)

/-- The cursor at the first node; none is the end. -/
def first (xs : List α) : Option κ := xs.head?.map key

/-- The cursor stands at the start of the last part of the list. -/
def Points (xs : List α) (c : Option κ) (ys : List α) : Prop := ys <:+ xs ∧ c = first key ys

/-- The cursor is the end or stands at a node of the list. -/
def Valid (xs : List α) (c : Option κ) : Prop := ∃ ys, Points key xs c ys

section
variable {key} {xs : List α} {x : α}

theorem first_eq_none : first key xs = none ↔ xs = [] := by
  rw [first, Option.map_eq_none_iff, List.head?_eq_none_iff]

@[simp] theorem first_nil : first key [] = none := rfl

@[simp] theorem first_cons : first key (x :: xs) = some (key x) := rfl

theorem points_first (xs : List α) : Points key xs (first key xs) xs := ⟨List.suffix_rfl,rfl⟩

theorem points_end (xs : List α) : Points key xs none [] := ⟨List.nil_suffix,rfl⟩

theorem Points.eq_nil_iff {c : Option κ} {ys : List α} (h : Points key xs c ys) : ys = [] ↔ c = none := by
  rw [h.2, first_eq_none]

/-- New nodes at the back are still to be visited unless the cursor is at the end. -/
theorem Points.append {c : Option κ} {ys : List α} (h : Points key xs c ys) (zs : List α) :
    Points key (xs ++ zs) c (if c = none then [] else ys ++ zs) := by
  obtain ⟨hs,rfl⟩ := h
  cases ys with
  | nil => exact points_end _
  | cons y ys =>
    obtain ⟨ws,rfl⟩ := hs
    exact ⟨⟨ws,by simp⟩,rfl⟩

end

variable [DecidableEq κ]

/-- From the node with this key on. -/
def fromNode (xs : List α) (k : κ) : List α := xs.dropWhile fun x => decide (key x ≠ k)

/-- What the cursor has still to visit. -/
def pending (xs : List α) : Option κ → List α
  | none => []
  | some k => fromNode key xs k

/-- The cursor behind a node. -/
def after (xs : List α) (k : κ) : Option κ := first key (fromNode key xs k).tail

def erase (xs : List α) (k : κ) : List α := xs.filter fun x => decide (key x ≠ k)

/-- The cursor is moved on from a node that goes. -/
def skip (xs : List α) (k : κ) (c : Option κ) : Option κ := if c = some k then after key xs k else c

variable {key} {xs ys zs : List α} {c : Option κ} {x : α} {k : κ}

theorem fromNode_split (hn : ((zs ++ x :: ys).map key).Nodup) : fromNode key (zs ++ x :: ys) (key x) = x :: ys := by
  have hne : ∀ z ∈ zs, decide (key z ≠ key x) = true := by
    intro z hz
    rw [List.map_append, List.nodup_append] at hn
    exact decide_eq_true (hn.2.2 _ (List.mem_map_of_mem hz) _ List.mem_cons_self)
  rw [fromNode, List.dropWhile_append_of_pos hne, List.dropWhile_cons_of_neg (by simp)]

theorem erase_of_notMem (h : k ∉ xs.map key) : erase key xs k = xs := by
  refine List.filter_eq_self.mpr fun x hx => decide_eq_true ?_
  rintro rfl
  exact h (List.mem_map_of_mem hx)

theorem erase_append (xs ys : List α) (k : κ) : erase key (xs ++ ys) k = erase key xs k ++ erase key ys k :=
  List.filter_append ..

theorem erase_cons_self (x : α) (xs : List α) : erase key (x :: xs) (key x) = erase key xs (key x) :=
  List.filter_cons_of_neg (by simp)

theorem erase_cons_of_ne (h : key x ≠ k) : erase key (x :: xs) k = x :: erase key xs k :=
  List.filter_cons_of_pos (by simpa using h)

theorem erase_split (hn : ((zs ++ x :: ys).map key).Nodup) : erase key (zs ++ x :: ys) (key x) = zs ++ ys := by
  rw [List.map_append, List.map_cons, List.nodup_append, List.nodup_cons] at hn
  obtain ⟨-,⟨hy,-⟩,hz⟩ := hn
  have hz : key x ∉ zs.map key := fun h => hz _ h _ List.mem_cons_self rfl
  rw [erase_append, erase_cons_self, erase_of_notMem hz, erase_of_notMem hy]

theorem erase_sublist (xs : List α) (k : κ) : List.Sublist (erase key xs k) xs := List.filter_sublist

theorem points_after (xs : List α) (k : κ) : Points key xs (after key xs k) (fromNode key xs k).tail :=
  ⟨(List.tail_suffix _).trans (List.dropWhile_suffix _),rfl⟩

namespace Points

/-- The cursor says what is still to be visited. -/
theorem pending_eq (h : Points key xs c ys) (hn : (xs.map key).Nodup) : pending key xs c = ys := by
  obtain ⟨⟨zs,rfl⟩,rfl⟩ := h
  cases ys with
  | nil => rfl
  | cons y ys => exact fromNode_split hn

/-- One node on. -/
theorem advance (h : Points key xs c (x :: ys)) (hn : (xs.map key).Nodup) :
    Points key xs (after key xs (key x)) ys := by
  obtain ⟨⟨zs,rfl⟩,-⟩ := h
  refine ⟨⟨zs ++ [x],by simp⟩,?_⟩
  rw [after, fromNode_split hn, List.tail_cons]

/-- A node that goes is no longer to be visited, and nothing else changes. -/
theorem erase (h : Points key xs c ys) (hn : (xs.map key).Nodup) (k : κ) :
    Points key (Cursor.erase key xs k) (skip key xs k c) (Cursor.erase key ys k) := by
  obtain ⟨⟨zs,rfl⟩,rfl⟩ := h
  refine ⟨⟨Cursor.erase key zs k,(erase_append ..).symm⟩,?_⟩
  cases ys with
  | nil => rfl
  | cons y ys =>
    rw [skip, first_cons]
    split
    · rename_i hk
      obtain rfl := Option.some.inj hk
      have hy : key y ∉ ys.map key := by
        rw [List.map_append, List.nodup_append, List.map_cons] at hn
        exact (List.nodup_cons.mp hn.2.1).1
      rw [after, fromNode_split hn, List.tail_cons, erase_cons_self, erase_of_notMem hy]
    · rename_i hk
      rw [erase_cons_of_ne fun he => hk (congrArg some he), first_cons]

end Points

/-- A valid cursor points to what is pending. -/
theorem Valid.points (h : Valid key xs c) (hn : (xs.map key).Nodup) : Points key xs c (pending key xs c) := by
  obtain ⟨ys,hp⟩ := h
  rwa [hp.pending_eq hn]

end UServer.Library.Cursor
