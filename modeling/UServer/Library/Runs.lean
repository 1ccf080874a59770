import Mathlib.Logic.Relation
import Mathlib.Tactic

/-! Machines that take one chosen action at a time, the states their runs reach,
and the invariant rule. Runs may be limited to actions that meet a condition. -/
namespace UServer.Library

/-- A start condition and a partial step function; none is an action not enabled. -/
structure Machine (σ α : Type*) where
  init : σ → Prop
  step : σ → α → Option σ

namespace Machine
variable {σ α : Type*} (M : Machine σ α) (ok : σ → α → Prop)

/-- One step by an action that meets the condition in the state before it. -/
def Next (s t : σ) : Prop := ∃ a, ok s a ∧ M.step s a = some t

/-- The states that follow a given one. -/
def Reaches : σ → σ → Prop := Relation.ReflTransGen (M.Next ok)

/-- The states on the runs all of whose actions meet the condition. -/
def Reachable (t : σ) : Prop := ∃ s, M.init s ∧ M.Reaches ok s t

/-- Every action is allowed. -/
def Free (_ : σ) (_ : α) : Prop := True

instance (s : σ) (a : α) : Decidable (Free s a) := inferInstanceAs (Decidable True)

variable {M ok}

/-- A relation to a fixed start that one step extends holds of every state that follows. -/
theorem Reaches.rule {s t : σ} (h : M.Reaches ok s t) {R : σ → Prop} (h₀ : R s)
    (hstep : ∀ u a v, M.Reaches ok s u → R u → ok u a → M.step u a = some v → R v) : R t := by
  induction h with
  | refl => exact h₀
  | tail hu hn ih =>
    obtain ⟨a,ha,he⟩ := hn
    exact hstep _ a _ hu ih ha he

theorem Reachable.tail {s t : σ} {a : α} (h : M.Reachable ok s) (ha : ok s a) (he : M.step s a = some t) :
    M.Reachable ok t := by
  obtain ⟨s₀,hs,hr⟩ := h
  exact ⟨s₀,hs,Relation.ReflTransGen.tail hr ⟨a,ha,he⟩⟩

/-- An invariant: true at the start and kept by every allowed step. -/
theorem Reachable.rule {t : σ} (h : M.Reachable ok t) {I : σ → Prop} (h₀ : ∀ s, M.init s → I s)
    (hstep : ∀ s a u, I s → ok s a → M.step s a = some u → I u) : I t := by
  obtain ⟨s,hs,hr⟩ := h
  exact hr.rule (h₀ s hs) fun u a v _ hu ha he => hstep u a v hu ha he

theorem Reachable.mono {ok' : σ → α → Prop} {t : σ} (h : M.Reachable ok t) (ho : ∀ s a, ok s a → ok' s a) :
    M.Reachable ok' t := by
  obtain ⟨s,hs,hr⟩ := h
  exact ⟨s,hs,Relation.ReflTransGen.mono (fun _ _ ⟨a,ha,he⟩ => ⟨a,ho _ _ ha,he⟩) _ _ hr⟩

variable (M ok)

/-- Take the listed actions in turn, as long as each meets the condition. -/
def run [∀ s a, Decidable (ok s a)] : σ → List α → Option σ
  | s, [] => some s
  | s, a :: as => if ok s a then (M.step s a).bind fun t => run t as else none

variable {M ok}

theorem reaches_of_run [∀ s a, Decidable (ok s a)] {s t : σ} {as : List α} (h : M.run ok s as = some t) :
    M.Reaches ok s t := by
  induction as generalizing s with
  | nil =>
    cases h
    exact .refl
  | cons a as ih =>
    unfold run at h
    split at h
    · rename_i ha
      obtain ⟨u,hu,hr⟩ := Option.bind_eq_some_iff.mp h
      exact .head ⟨a,ha,hu⟩ (ih hr)
    · cases h

theorem run_cons [∀ s a, Decidable (ok s a)] {s t : σ} {a : α} (ha : ok s a) (he : M.step s a = some t) (as : List α) :
    M.run ok s (a :: as) = M.run ok t as := by
  rw [run, if_pos ha, he, Option.bind_some]

theorem run_append [∀ s a, Decidable (ok s a)] (as bs : List α) (s : σ) :
    M.run ok s (as ++ bs) = (M.run ok s as).bind fun t => M.run ok t bs := by
  induction as generalizing s with
  | nil => rfl
  | cons a as ih =>
    rw [List.cons_append, run, run]
    split
    · rw [Option.bind_assoc]
      exact congrArg _ (funext ih)
    · rfl

/-- A finished run gives a reachable state with whatever the run ends in. -/
theorem exists_reachable_of_run [∀ s a, Decidable (ok s a)] {s : σ} {as : List α} {p : σ → Bool}
    (hs : M.init s) (h : (M.run ok s as).any p = true) : ∃ t, M.Reachable ok t ∧ p t = true := by
  obtain ⟨t,ht,hp⟩ := (Option.any_eq_true _ _).mp h
  exact ⟨t,⟨s,hs,reaches_of_run ht⟩,hp⟩

/-- A run of actions that are always allowed. -/
theorem run_eq_free [∀ s a, Decidable (ok s a)] {as : List α} (ha : ∀ a ∈ as, ∀ s, ok s a) (s : σ) :
    M.run ok s as = M.run Free s as := by
  induction as generalizing s with
  | nil => rfl
  | cons a as ih =>
    have hf : Free s a := trivial
    rw [run, run, if_pos (ha a List.mem_cons_self s), if_pos hf]
    exact congrArg _ (funext (ih fun b hb => ha b (List.mem_cons_of_mem a hb)))

/-- Where every allowed step lowers a measure, no run is longer than the measure at its start. -/
theorem length_le_of_run [∀ s a, Decidable (ok s a)] {measure : σ → ℕ} {I : σ → Prop}
    (hstep : ∀ s a t, I s → ok s a → M.step s a = some t → I t ∧ measure t < measure s) {s t : σ} {as : List α} (hs : I s)
    (h : M.run ok s as = some t) : as.length ≤ measure s := by
  induction as generalizing s with
  | nil => exact Nat.zero_le _
  | cons a as ih =>
    unfold run at h
    split at h
    · rename_i ha
      obtain ⟨u,hu,hr⟩ := Option.bind_eq_some_iff.mp h
      obtain ⟨hi,hlt⟩ := hstep s a u hs ha hu
      exact (Nat.succ_le_succ (ih hi hr)).trans hlt
    · cases h

variable (M)

/-- The states that the listed actions pass through, as far as they can be taken. -/
def passed : σ → List α → List σ
  | s, [] => [s]
  | s, a :: as => s :: (M.step s a).elim [] fun t => passed t as

variable {M}

/-- Where an allowed step is one that keeps a condition, the runs of allowed steps are those that pass through states
which meet it. -/
theorem run_iff_forall_passed [∀ s a, Decidable (ok s a)] {I : σ → Prop}
    (hI : ∀ s a t, I s → M.step s a = some t → (I t ↔ ok s a)) {s t : σ} {as : List α} (hs : I s)
    (h : M.run Free s as = some t) : M.run ok s as = some t ↔ ∀ u ∈ M.passed s as, I u := by
  induction as generalizing s with
  | nil => exact iff_of_true h (by simpa [passed] using hs)
  | cons a as ih =>
    rw [run, if_pos (show Free s a from trivial)] at h
    obtain ⟨u,hu,hr⟩ := Option.bind_eq_some_iff.mp h
    rw [run, passed, List.forall_mem_cons, hu, Option.bind_some, Option.elim_some, and_iff_right hs]
    split
    · rename_i ha
      exact ih ((hI s a u hs hu).mpr ha) hr
    · rename_i ha
      refine iff_of_false (by simp) fun hp => ha ((hI s a u hs hu).mp (hp u ?_))
      cases as <;> exact List.mem_cons_self

/-- A quantity that an allowed step keeps and any other step raises by one. -/
def Potential (M : Machine σ α) (ok : σ → α → Prop) (potential : σ → ℕ) : Prop :=
  ∀ s a t, M.step s a = some t → (ok s a → potential t = potential s) ∧ (¬ ok s a → potential t = potential s + 1)

namespace Potential
variable {potential : σ → ℕ}

theorem le_of_run (hp : M.Potential ok potential) {s t : σ} {as : List α} (h : M.run Free s as = some t) :
    potential s ≤ potential t := by
  refine (reaches_of_run h).rule (R := fun u => potential s ≤ potential u) le_rfl ?_
  intro u a v _ hu _ he
  by_cases ha : ok u a
  · exact hu.trans ((hp u a v he).1 ha).ge
  · exact (hu.trans (Nat.le_succ _)).trans ((hp u a v he).2 ha).ge

/-- The runs whose steps are all allowed are those at whose end it is what it was. -/
theorem run_iff (hp : M.Potential ok potential) [∀ s a, Decidable (ok s a)] {s t : σ} {as : List α}
    (h : M.run Free s as = some t) : M.run ok s as = some t ↔ potential t = potential s := by
  induction as generalizing s with
  | nil =>
    cases h
    exact iff_of_true rfl rfl
  | cons a as ih =>
    rw [run, if_pos (show Free s a from trivial)] at h
    obtain ⟨u,hu,hr⟩ := Option.bind_eq_some_iff.mp h
    rw [run]
    split
    · rename_i ha
      rw [hu, Option.bind_some, ih hr, (hp s a u hu).1 ha]
    · rename_i ha
      have hle := hp.le_of_run hr
      have hraise := (hp s a u hu).2 ha
      refine iff_of_false (by simp) ?_
      omega

end Potential
end Machine

/-- What a statement leads to: a state, or undefined behaviour, after which nothing is known of the run. -/
inductive Execution (σ : Type*) where
  | defined (s : σ)
  | undefined

namespace Execution
variable {σ α : Type*}

/-- The behaviour is defined, and the state has the property. -/
def Meets (P : σ → Prop) : Execution σ → Prop
  | .defined s => P s
  | .undefined => False

instance (P : σ → Prop) [DecidablePred P] : DecidablePred (Meets P)
  | .defined s => inferInstanceAs (Decidable (P s))
  | .undefined => inferInstanceAs (Decidable False)

/-- The runs of a program from what its first statement leads to. Undefined behaviour has no next step. -/
def machine (first : Execution σ) (step : σ → α → Option (Execution σ)) : Machine (Execution σ) α where
  init e := e = first
  step e a :=
    match e with
    | .defined s => step s a
    | .undefined => none

/-- Nothing follows undefined behaviour. -/
theorem reachable_undefined_iff {step : σ → α → Option (Execution σ)} {ok : Execution σ → α → Prop} {e : Execution σ} :
    (machine .undefined step).Reachable ok e ↔ e = .undefined := by
  constructor
  · intro h
    refine h.rule (I := fun e => e = .undefined) (fun _ hs => hs) ?_
    rintro _ a u rfl _ he
    cases he
  · rintro rfl
    exact ⟨_,rfl,.refl⟩

/-- An invariant of the states, true at the start and kept by every allowed step, which therefore is defined. -/
theorem meets_of_reachable {first e : Execution σ} {step : σ → α → Option (Execution σ)} {ok : σ → α → Prop}
    (h : (machine first step).Reachable (fun e a => e.Meets fun s => ok s a) e) {I : σ → Prop} (h₀ : first.Meets I)
    (hstep : ∀ s a u, I s → ok s a → step s a = some u → u.Meets I) : e.Meets I := by
  refine h.rule (I := Meets I) ?_ ?_
  · rintro _ rfl
    exact h₀
  · intro f a u hi ha he
    cases f with
    | defined s => exact hstep s a u hi ha he
    | undefined => cases hi

end Execution
end UServer.Library
