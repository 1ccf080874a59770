import Mathlib.Data.List.Sort
import Mathlib.Tactic

/-! Priority queues as lists in the order their members leave, and the order in which
two members of a list stand. -/
namespace UServer.Library

/-- The members in the order they are popped. -/
structure PriorityQueue (α : Type*) (r : α → α → Prop) where
  items : List α
  ordered : items.Pairwise r

namespace PriorityQueue
variable {α : Type*} {r : α → α → Prop}

def empty : PriorityQueue α r := ⟨[],.nil⟩

variable [DecidableRel r] [Std.Total r] [IsTrans α r]

def push (q : PriorityQueue α r) (a : α) : PriorityQueue α r :=
  ⟨q.items.orderedInsert r a,q.ordered.orderedInsert a _⟩

variable (q : PriorityQueue α r) {a b : α}

theorem mem_push : b ∈ (q.push a).items ↔ b = a ∨ b ∈ q.items := List.mem_orderedInsert r

theorem push_perm : (q.push a).items.Perm (a :: q.items) := List.perm_orderedInsert r a _

theorem sublist_push : q.items.Sublist (q.push a).items := List.sublist_orderedInsert a _

omit [DecidableRel r] [IsTrans α r] in
/-- Of two members the one that may not follow the other is popped first. -/
theorem pair_sublist (ha : a ∈ q.items) (hb : b ∈ q.items) (h : ¬ r b a) : [a,b].Sublist q.items := by
  obtain ⟨l,ho⟩ := q
  have hne : a ≠ b := by
    rintro rfl
    exact (Std.Total.total a a).elim h h
  induction l with
  | nil => cases ha
  | cons c l ih =>
    obtain ⟨hc,ho⟩ := List.pairwise_cons.mp ho
    rcases List.mem_cons.mp ha with rfl | ha'
    · exact List.cons_sublist_cons.mpr (List.singleton_sublist.mpr (List.mem_of_ne_of_mem hne.symm hb))
    · rcases List.mem_cons.mp hb with rfl | hb'
      · exact absurd (hc a ha') h
      · exact (ih ho ha' hb').cons c

end PriorityQueue

/-- A pair that stands in a list without repetitions, and ends in its front part, stands there. -/
theorem pair_sublist_left {α : Type*} {l m : List α} {a b : α} (hn : (l ++ m).Nodup) (hb : b ∈ l)
    (h : [a,b].Sublist (l ++ m)) : [a,b].Sublist l := by
  obtain ⟨xs,ys,he,hx,hy⟩ := List.sublist_append_iff.mp h
  rcases ys.eq_nil_or_concat with rfl | hy'
  · rwa [he, List.append_nil]
  · obtain ⟨zs,c,rfl⟩ := hy'
    have hc : b = c := by
      have hlast := congrArg List.getLast? he
      simpa [← List.append_assoc] using hlast
    subst hc
    exact absurd (hy.subset (by simp)) (List.disjoint_of_nodup_append hn hb)

end UServer.Library
