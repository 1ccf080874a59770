import UServer.Library.Runs

/-! The objects that one function goes through on its way from MakeFinally to a destructor: a sequence of move
constructions and destructions, each object named by its place in the order of construction. -/
namespace UServer.Base
open Library

/-- The function and whether the destructor is to call it. -/
structure FinallyImpl (F : Type*) where
  func : F
  valid : Bool
  deriving DecidableEq

/-- Every object so far, none once it is destroyed, what their destructors called, and the one that last received the
function: a move hands it on from where it is, and one from any other object has none to hand on. -/
structure Finallys (F : Type*) where
  objects : List (Option (FinallyImpl F))
  calls : List (ℕ × F)
  receiver : ℕ
  deriving DecidableEq

inductive FinallyAction
  | move (i : ℕ)
  | destroy (i : ℕ)
  deriving DecidableEq

/-- The constructors from a function. -/
def makeFinally {F : Type*} (func : F) : Finallys F := ⟨[some ⟨func,true⟩],[],0⟩

namespace Finallys
variable {F : Type*}

def object (s : Finallys F) (i : ℕ) : Option (FinallyImpl F) := s.objects[i]?.join

def Valid (s : Finallys F) (i : ℕ) : Prop := (s.object i).any FinallyImpl.valid = true

def Finished (s : Finallys F) : Prop := s.objects.all Option.isNone = true

instance (s : Finallys F) (i : ℕ) : Decidable (s.Valid i) := inferInstanceAs (Decidable (_ = true))

instance (s : Finallys F) : Decidable s.Finished := inferInstanceAs (Decidable (_ = true))

/-- The move constructor: the new object starts valid, whatever the flag of the other one was. -/
def moveFrom (movedFrom : F → F) (s : Finallys F) (i : ℕ) (other : FinallyImpl F) : Finallys F where
  objects := s.objects.set i (some ⟨movedFrom other.func,false⟩) ++ [some ⟨other.func,true⟩]
  calls := s.calls
  receiver := if i = s.receiver then s.objects.length else s.receiver

/-- The destructor. -/
def destroyed (s : Finallys F) (i : ℕ) (o : FinallyImpl F) : Finallys F :=
  { s with objects := s.objects.set i none, calls := if o.valid then s.calls ++ [(i,o.func)] else s.calls }

def step (movedFrom : F → F) (s : Finallys F) : FinallyAction → Option (Finallys F)
  | .move i => (s.object i).map (s.moveFrom movedFrom i)
  | .destroy i => (s.object i).map (s.destroyed i)

/-- A move is made from an object that was not itself moved from. -/
def FromValid (s : Finallys F) : FinallyAction → Prop
  | .move i => s.Valid i
  | .destroy _ => True

instance (s : Finallys F) : DecidablePred s.FromValid
  | .move i => inferInstanceAs (Decidable (s.Valid i))
  | .destroy _ => inferInstanceAs (Decidable True)

/-- At most one object is valid, and when all are destroyed the function was called once, by the one that last
received it. -/
structure RunsOnce (func : F) (s : Finallys F) : Prop where
  one : ∀ i j, s.Valid i → s.Valid j → i = j
  called : s.Finished → s.calls = [(s.receiver,func)]

end Finallys

/-- Every sequence of moves and destructions after the first construction. What a move leaves of the function itself is
up to its type. -/
def finallyMachine {F : Type*} (movedFrom : F → F) (func : F) : Machine (Finallys F) FinallyAction where
  init s := s = makeFinally func
  step := Finallys.step movedFrom

namespace Finallys
variable {F : Type*} {movedFrom : F → F} {func : F} {s t : Finallys F} {i j : ℕ} {o : FinallyImpl F}

theorem object_of_length_le (h : s.objects.length ≤ i) : s.object i = none := by
  rw [object, List.getElem?_eq_none h, Option.join_none]

theorem lt_of_object (h : s.object i = some o) : i < s.objects.length := by
  by_contra hn
  rw [object_of_length_le (not_lt.mp hn)] at h
  cases h

theorem getElem_of_object (h : s.object i = some o) (hi : i < s.objects.length) : s.objects[i] = some o := by
  rw [object, List.getElem?_eq_getElem hi] at h
  simpa using h

theorem mem_of_object (h : s.object i = some o) : some o ∈ s.objects :=
  getElem_of_object h (lt_of_object h) ▸ List.getElem_mem _

theorem valid_iff : s.Valid i ↔ ∃ o, s.object i = some o ∧ o.valid = true := by
  rw [Valid, Option.any_eq_true]

theorem object_moveFrom (h : s.object i = some o) (j : ℕ) :
    (s.moveFrom movedFrom i o).object j =
      if j = s.objects.length then some ⟨o.func,true⟩ else if j = i then some ⟨movedFrom o.func,false⟩ else s.object j := by
  have hi := lt_of_object h
  rcases lt_trichotomy j s.objects.length with hj | hj | hj
  · rw [if_neg hj.ne, object, moveFrom, List.getElem?_append_left (by simpa using hj), List.getElem?_set]
    rcases eq_or_ne i j with rfl | hij
    · simp [hj]
    · rw [if_neg hij, if_neg hij.symm, object]
  · subst hj
    simp [object, moveFrom]
  · rw [if_neg hj.ne', if_neg (by omega), object_of_length_le hj.le]
    exact object_of_length_le (by simpa [moveFrom] using hj)

theorem object_destroyed (j : ℕ) : (s.destroyed i o).object j = if j = i then none else s.object j := by
  rw [object, destroyed, List.getElem?_set]
  rcases eq_or_ne i j with rfl | hij
  · by_cases hi : i < s.objects.length <;> simp [hi]
  · rw [if_neg hij, if_neg hij.symm, object]

theorem valid_of_object (h : s.object i = some o) : s.Valid i ↔ o.valid = true := by
  rw [Valid, h, Option.any_some]

theorem object_of_finished (h : s.Finished) (i : ℕ) : s.object i = none := by
  by_contra hn
  obtain ⟨o,ho⟩ := Option.ne_none_iff_exists'.mp hn
  have hnone := List.all_eq_true.mp h _ (mem_of_object ho)
  cases hnone

/-- The function is where it was last received, in the only valid object, or that one has called it. -/
inductive Phase (func : F) (s : Finallys F) : Prop
  | held (hr : s.object s.receiver = some ⟨func,true⟩) (hv : ∀ i, s.Valid i → i = s.receiver) (hc : s.calls = [])
  | called (hv : ∀ i, ¬ s.Valid i) (hc : s.calls = [(s.receiver,func)])

namespace Phase

/-- A move of the valid object hands the function on to the new one. -/
private theorem move (h : s.Phase func) (hi : s.Valid i) (ho : s.object i = some o) :
    (s.moveFrom movedFrom i o).Phase func := by
  cases h with
  | called hv => exact absurd hi (hv i)
  | held hr hv hc =>
    have hir := hv i hi
    have hf : o = ⟨func,true⟩ := by
      rw [hir, hr] at ho
      exact (Option.some_inj.mp ho).symm
    have hlen : (s.moveFrom movedFrom i o).receiver = s.objects.length := if_pos hir
    refine .held ?_ (fun j hj => ?_) hc
    · rw [hlen, object_moveFrom ho, if_pos rfl, hf]
    · rw [hlen]
      by_contra hne
      rw [Valid, object_moveFrom ho, if_neg hne] at hj
      split at hj
      · simp at hj
      · rename_i hji
        exact hji ((hv j hj).trans hir.symm)

private theorem destroy (h : s.Phase func) (ho : s.object i = some o) : (s.destroyed i o).Phase func := by
  have hvalid {j : ℕ} (hj : (s.destroyed i o).Valid j) : j ≠ i ∧ s.Valid j := by
    rw [Valid, object_destroyed] at hj
    split at hj
    · simp at hj
    · rename_i hji
      exact ⟨hji,hj⟩
  cases h with
  | called hv hc =>
    have hf : o.valid = false := Bool.eq_false_iff.mpr fun ht => hv i ((valid_of_object ho).mpr ht)
    exact .called (fun j hj => hv j (hvalid hj).2) (by simp [destroyed, hf, hc])
  | held hr hv hc =>
    by_cases hir : i = s.receiver
    · have hf : o = ⟨func,true⟩ := by
        rw [hir, hr] at ho
        exact (Option.some_inj.mp ho).symm
      refine .called (fun j hj => (hvalid hj).1 ((hv j (hvalid hj).2).trans hir.symm)) ?_
      simp [destroyed, hf, hc, hir]
    · have hf : o.valid = false := Bool.eq_false_iff.mpr fun ht => hir (hv i ((valid_of_object ho).mpr ht))
      refine .held ?_ (fun j hj => hv j (hvalid hj).2) (by simp [destroyed, hf, hc])
      change (s.destroyed i o).object s.receiver = _
      rw [object_destroyed, if_neg (Ne.symm hir), hr]

theorem step (h : s.Phase func) {a : FinallyAction} (ha : s.FromValid a) (he : s.step movedFrom a = some t) :
    t.Phase func := by
  cases a with
  | move i =>
    obtain ⟨o,ho,rfl⟩ := Option.map_eq_some_iff.mp he
    exact h.move ha ho
  | destroy i =>
    obtain ⟨o,ho,rfl⟩ := Option.map_eq_some_iff.mp he
    exact h.destroy ho

theorem of_reaches (h : (finallyMachine movedFrom func).Reaches FromValid (makeFinally func) s) : s.Phase func := by
  apply h.rule (R := fun s => s.Phase func)
  · refine .held rfl (fun i hi => ?_) rfl
    obtain ⟨o,ho,-⟩ := valid_iff.mp hi
    exact Nat.lt_one_iff.mp (lt_of_object ho)
  · intro u a v _ hu ha he
    exact hu.step ha he

theorem runsOnce (h : s.Phase func) : s.RunsOnce func := by
  cases h with
  | held hr hv hc =>
    refine ⟨fun i j hi hj => (hv i hi).trans (hv j hj).symm,fun hf => ?_⟩
    rw [object_of_finished hf] at hr
    cases hr
  | called hv hc => exact ⟨fun i j hi => absurd hi (hv i),fun _ => hc⟩

end Phase

/-- Is it there, and going to call the function? -/
def live (o : Option (FinallyImpl F)) : Bool := o.any FinallyImpl.valid

/-- How often the function was called, or is going to be called by the objects there are. -/
def total (s : Finallys F) : ℕ := s.calls.length + s.objects.countP live

private theorem countP_set_of_object (h : s.object i = some o) (new : Option (FinallyImpl F)) (hn : live new = false) :
    (s.objects.set i new).countP live + o.valid.toNat = s.objects.countP live := by
  have hpos : o.valid = true → 0 < s.objects.countP live := fun hv =>
    List.countP_pos_iff.mpr ⟨some o,mem_of_object h,hv⟩
  rw [List.countP_set (lt_of_object h), getElem_of_object h (lt_of_object h), hn]
  cases hv : o.valid with
  | false => simp [live, hv]
  | true =>
    have hp := hpos hv
    simp only [live, Option.any_some, hv, if_true, Bool.toNat_true, Bool.false_eq_true, if_false]
    omega

/-- A move from an object that was moved from makes one more call, and nothing else does. -/
theorem total_potential : (finallyMachine movedFrom func).Potential FromValid total := by
  intro s a t he
  cases a with
  | move i =>
    obtain ⟨o,ho,rfl⟩ := Option.map_eq_some_iff.mp he
    have hset := countP_set_of_object ho (some ⟨movedFrom o.func,false⟩) rfl
    have htotal : (s.moveFrom movedFrom i o).total + o.valid.toNat = s.total + 1 := by
      simp only [total, moveFrom, List.countP_append, List.countP_singleton, live, Option.any_some, if_true] at hset ⊢
      omega
    rw [FromValid, valid_of_object ho]
    cases hv : o.valid with
    | false =>
      rw [hv, Bool.toNat_false] at htotal
      exact ⟨fun hf => absurd hf Bool.false_ne_true,fun _ => htotal⟩
    | true =>
      rw [hv, Bool.toNat_true] at htotal
      exact ⟨fun _ => Nat.add_right_cancel htotal,fun hn => absurd rfl hn⟩
  | destroy i =>
    obtain ⟨o,ho,rfl⟩ := Option.map_eq_some_iff.mp he
    refine ⟨fun _ => ?_,fun hn => absurd trivial hn⟩
    have hset := countP_set_of_object ho none rfl
    cases hv : o.valid with
    | false => simpa [total, destroyed, hv] using hset
    | true =>
      simp only [hv, Bool.toNat_true] at hset
      simp only [total, destroyed, hv, if_true, List.length_append, List.length_singleton]
      omega

/-- Whatever there is can be destroyed. -/
theorem exists_finish (movedFrom : F → F) (func : F) (s : Finallys F) : ∃ (order : List ℕ) (u : Finallys F),
    (finallyMachine movedFrom func).run Machine.Free s (order.map .destroy) = some u ∧ u.Finished := by
  induction hn : s.objects.countP Option.isSome generalizing s with
  | zero =>
    refine ⟨[],s,rfl,List.all_eq_true.mpr fun o ho => ?_⟩
    simpa using List.countP_eq_zero.mp hn o ho
  | succ n ih =>
    obtain ⟨o,hm,hs⟩ := List.countP_pos_iff.mp (by omega : 0 < s.objects.countP Option.isSome)
    obtain ⟨i,hi,rfl⟩ := List.mem_iff_getElem.mp hm
    obtain ⟨o,ho⟩ := Option.isSome_iff_exists.mp hs
    have hobj : s.object i = some o := by rw [object, List.getElem?_eq_getElem hi, ho, Option.join_some]
    have hcount : (s.destroyed i o).objects.countP Option.isSome = n := by
      rw [destroyed, List.countP_set hi, ho, hn]
      simp
    obtain ⟨order,u,hr,hf⟩ := ih (s.destroyed i o) hcount
    have hfree : Machine.Free s (FinallyAction.destroy i) := trivial
    refine ⟨i :: order,u,?_,hf⟩
    rw [List.map_cons, Machine.run, if_pos hfree]
    simpa [finallyMachine, step, hobj] using hr

end Finallys

/-- Of every sequence: in whatever order its objects are then destroyed, at most one is valid at a time and the function
is called once, by the object that last received it, exactly if each move was made from a valid object. -/
theorem runs_once_iff {F : Type*} {movedFrom : F → F} {func : F} {actions : List FinallyAction} {t : Finallys F}
    (h : (finallyMachine movedFrom func).run Machine.Free (makeFinally func) actions = some t) :
    (∀ (order : List ℕ) (u : Finallys F),
      (finallyMachine movedFrom func).run Machine.Free t (order.map .destroy) = some u → u.RunsOnce func) ↔
      (finallyMachine movedFrom func).run Finallys.FromValid (makeFinally func) actions = some t := by
  constructor
  · intro hall
    rw [Finallys.total_potential.run_iff h]
    obtain ⟨order,u,hu,hf⟩ := Finallys.exists_finish movedFrom func t
    have hone : u.total = 1 := by
      have hnone : u.objects.countP Finallys.live = 0 := by
        refine List.countP_eq_zero.mpr fun o ho => ?_
        have hn : o = none := Option.isNone_iff_eq_none.mp (List.all_eq_true.mp hf o ho)
        simp [hn, Finallys.live]
      rw [Finallys.total, hnone, (hall order u hu).called hf]
      rfl
    have hstart : (makeFinally func).total = 1 := rfl
    have hle := Finallys.total_potential.le_of_run h
    have hge := Finallys.total_potential.le_of_run hu
    omega
  · intro hv order u hu
    have hd : (finallyMachine movedFrom func).run Finallys.FromValid t (order.map .destroy) = some u := by
      rw [Machine.run_eq_free, hu]
      intro a ha s
      obtain ⟨i,-,rfl⟩ := List.mem_map.mp ha
      trivial
    have hr := (Machine.reaches_of_run hv).trans (Machine.reaches_of_run hd)
    exact (Finallys.Phase.of_reaches hr).runsOnce

/-- MakeFinally returns by value: the object it made, moved from, calls nothing. -/
theorem runs_once_return : (⟨[none,none],[(1,7)],1⟩ : Finallys ℕ).RunsOnce 7 := by
  have h : (finallyMachine id 7).run Machine.Free (makeFinally 7) [.move 0, .destroy 0, .destroy 1] =
      some ⟨[none,none],[(1,7)],1⟩ := by decide
  exact (runs_once_iff h).mpr (by decide) [] _ rfl

/-- A defer: one object, destroyed at the end of its scope. -/
example {F : Type*} (movedFrom : F → F) (func : F) :
    (finallyMachine movedFrom func).run Machine.Free (makeFinally func) [.destroy 0] = some ⟨[none],[(0,func)],0⟩ := rfl

/-- Two moves from the first object: the second one is from an object that was moved from, and makes a valid one. Both
new ones call the function. -/
theorem moved_twice_runs_twice :
    ((finallyMachine id 7).run Machine.Free (makeFinally 7) [.move 0, .move 0]).any
      (fun t => decide (t.Valid 1 ∧ t.Valid 2)) = true ∧
    (finallyMachine id 7).run Machine.Free (makeFinally 7) [.move 0, .move 0, .destroy 0, .destroy 1, .destroy 2] =
      some ⟨[none,none,none],[(1,7),(2,7)],1⟩ ∧
    ¬ ∀ (actions : List FinallyAction) (t : Finallys ℕ),
      (finallyMachine id 7).run Machine.Free (makeFinally 7) actions = some t → t.RunsOnce 7 := by
  have h : (finallyMachine id 7).run Machine.Free (makeFinally 7) [.move 0, .move 0, .destroy 0, .destroy 1, .destroy 2] =
      some ⟨[none,none,none],[(1,7),(2,7)],1⟩ := by decide
  refine ⟨by decide,h,fun hall => ?_⟩
  have hc := (hall _ _ h).called (by decide)
  simp at hc

end UServer.Base
