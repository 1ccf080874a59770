import Mathlib.Data.List.Basic
import Mathlib.Tactic

/-! Resources that a log, newest entry first, takes and gives back. Which ones are out
at its end, and whether every take and every return comes in turn. -/
namespace UServer.Library.Custody
variable {ε ι : Type*} [DecidableEq ι] (effect : ε → Option (ι × Bool))

/-- Is the resource out? The last entry about it decides: true takes it, false gives it back. -/
def out (i : ι) : List ε → Bool
  | [] => false
  | e :: log =>
    match effect e with
    | none => out i log
    | some (j, taken) => if j = i then taken else out i log

/-- Only what is not out is taken, and only what is out is given back. -/
def InTurn (log : List ε) : Prop :=
  ∀ newer e older i taken, log = newer ++ e :: older → effect e = some (i,taken) → out effect i older = !taken

variable {effect} {log : List ε} {e : ε}

theorem out_cons_of_none (h : effect e = none) (i : ι) : out effect i (e :: log) = out effect i log := by
  rw [out, h]

theorem out_cons_of_some {j : ι} {taken : Bool} (h : effect e = some (j,taken)) (i : ι) :
    out effect i (e :: log) = if j = i then taken else out effect i log := by
  rw [out, h]

/-- Entries about other things change nothing. -/
theorem out_append_of_none {es : List ε} (h : ∀ e ∈ es, effect e = none) (i : ι) :
    out effect i (es ++ log) = out effect i log := by
  induction es with
  | nil => rfl
  | cons e es ih =>
    rw [List.cons_append, out_cons_of_none (h e (List.mem_cons_self ..))]
    exact ih fun e he => h e (List.mem_cons_of_mem _ he)

namespace InTurn

theorem nil : InTurn effect ([] : List ε) := by
  intro newer e older i taken h
  simp at h

theorem cons (hl : InTurn effect log) (h : ∀ i taken, effect e = some (i,taken) → out effect i log = !taken) :
    InTurn effect (e :: log) := by
  intro newer e' older i taken he hi
  cases newer with
  | nil =>
    cases he
    exact h i taken hi
  | cons _ newer =>
    obtain ⟨-,he⟩ := List.cons.inj he
    exact hl newer e' older i taken he hi

theorem append_of_none (hl : InTurn effect log) {es : List ε} (h : ∀ e ∈ es, effect e = none) :
    InTurn effect (es ++ log) := by
  induction es with
  | nil => exact hl
  | cons e es ih =>
    refine (ih fun e he => h e (List.mem_cons_of_mem _ he)).cons fun i taken hi => ?_
    cases (h e (List.mem_cons_self ..)).symm.trans hi

end InTurn
end UServer.Library.Custody
