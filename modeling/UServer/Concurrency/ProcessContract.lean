import UServer.Concurrency.GetCalls
import UServer.Library.History

/-! What ProcessMessages returns against the contract in its comment: broken by an empty function among the tasks,
and by the end of its time while quitting, and by nothing else. -/
namespace UServer.Concurrency
open Library

/-- A return of ProcessMessages, with stop_ as it was then and whether its last Get ended in a failed Wait. -/
structure Return where
  cms : ℤ
  result : Bool
  quitting : Bool
  waitFailed : Bool
  deriving DecidableEq

structure Return.Kept (r : Return) : Prop where
  forever : r.cms = kForever → r.quitting = true ∨ r.waitFailed = true
  poll : r.cms = 0 → r.result = true ∨ r.quitting = true
  quit : r.result = false ↔ r.quitting = true

namespace Return

theorem kept_of_stop_iff {cms : ℤ} {quitting waitFailed : Bool} : Kept ⟨cms,!quitting,quitting,waitFailed⟩ ↔
    (cms = kForever → quitting = true ∨ waitFailed = true) := by
  refine ⟨Kept.forever,fun h => ⟨h,fun _ => ?_,by simp⟩⟩
  cases quitting with
  | false => exact .inl rfl
  | true => exact .inr rfl

/-- The end of the time keeps the contract only where the thread is not quitting. -/
theorem kept_of_spent_iff {cms : ℤ} {quitting waitFailed : Bool} (hc : cms ≠ kForever) :
    Kept ⟨cms,true,quitting,waitFailed⟩ ↔ quitting = false := by
  constructor
  · intro h
    simpa using h.quit
  · intro h
    exact ⟨fun hf => absurd hf hc,fun _ => .inl rfl,by simp [h]⟩

end Return

/-- Whether the Wait that returned last failed, with no look at the queue since, and every return so far. -/
structure ReturnHistory where
  waitFailed : Bool
  returns : List Return
  deriving DecidableEq

namespace ReturnHistory
variable {ι : Type*}

def start : ReturnHistory := ⟨false,[]⟩

/-- What a step of the loop thread out of ProcessMessages adds. -/
def noteReturn (p : ProcessFrame) (s t : State ι) (g : ReturnHistory) : ReturnHistory :=
  match t.loop with
  | .outside (some result) => { g with returns := g.returns ++ [⟨p.cms,result,s.stop,g.waitFailed⟩] }
  | _ => g

def note (s : State ι) (a : Action ι) (t : State ι) (g : ReturnHistory) : ReturnHistory :=
  match a, s.loop with
  | .loop, .take _ => { g with waitFailed := false }
  | .loop, .waited _ result => { g with waitFailed := !result }
  | .loop, .got p _ => noteReturn p s t g
  | .loop, .run p _ => noteReturn p s t g
  | _, _ => g

end ReturnHistory

/-- The Thread with a record of what ProcessMessages returned. -/
def contractMachine (ι : Type*) [DecidableEq ι] : Machine (State ι × ReturnHistory) (Action ι) :=
  (threadMachine ι).recorded .start ReturnHistory.note

/-- A step that keeps the contract: an empty function ends no ProcessMessages without a timeout, and time is not
up while quitting. -/
def Heeded {ι : Type*} (s : State ι) (a : Action ι) : Prop :=
  match a, s.loop with
  | .loop, .got p (some t) => p.cms = kForever → t.callable = true ∨ s.stop = true
  | .loop, .run p _ => p.cms ≠ kForever ∧ toInt (p.msEnd - s.timeMillis) < 0 → s.stop = false
  | _, _ => True

section
variable {ι : Type*} {s t : State ι} {a : Action ι} {g : ReturnHistory}

theorem ReturnHistory.note_of_ne (ha : a ≠ .loop) : note s a t g = g := by
  cases a with
  | loop => exact absurd rfl ha
  | _ => rfl

variable [DecidableEq ι]

/-- How the loop thread comes to leave Get. -/
inductive Arrival (s : State ι) (p : ProcessFrame) : Option Task → Prop
  | took {f : GetFrame} {x : Task} (h : s.loop = .take f) : Arrival s p (some x)
  | quitting {f : GetFrame} {next : ℤ} (h : s.loop = .check f next) (hs : s.stop = true) : Arrival s p none
  | waited {f : GetFrame} {result : Bool} (h : s.loop = .waited f result) (hp : f.process = p)
      (hr : result = true → f.cmsWait ≠ kForever) : Arrival s p none

theorem arrival_of_step (h : s.step .loop = some t) {p : ProcessFrame} {task : Option Task} (hl : t.loop = .got p task)
    (hn : ∀ task, s.loop ≠ .got p task) : Arrival s p task := by
  cases step_turn h with
  | move hm =>
    cases hm with
    | quitting hc hs =>
      cases hl
      exact .quitting hc hs
    | @returnEmpty f result hw =>
      simp only [State.step, State.loopStep, hw, Option.some_inj] at h
      cases hl
      refine .waited hw rfl fun hr hf => ?_
      have hg := congrArg State.loop h
      simp [State.goto, GetFrame.waited, hr, hf] at hg
    | _ => cases hl
  | give ht =>
    cases hl
    exact .took ht
  | look | enter | onEvent | reset => cases hl
  | _ => exact absurd hl (hn task)

/-- Why Get returned no task, and that no Wait failed where it returned one. -/
structure ReturnInvariant (s : State ι) (g : ReturnHistory) : Prop where
  empty : ∀ p, s.loop = .got p none → p.cms = kForever → s.stop = true ∨ g.waitFailed = true
  task : ∀ p x, s.loop = .got p (some x) → g.waitFailed = false

/-- No other thread brings the loop thread out of Get. -/
theorem got_of_ne (ha : a ≠ .loop) (he : s.step a = some t) {p : ProcessFrame} {task : Option Task}
    (hl : t.loop = .got p task) : s.loop = .got p task := by
  have hp := (step_aside ha he).1
  generalize t.loop = pc at hp hl
  cases hp with
  | stay => exact hl
  | _ => cases hl

theorem not_got_twice (he : s.step .loop = some t) {p q : ProcessFrame} {task task' : Option Task}
    (hl : t.loop = .got p task) : s.loop ≠ .got q task' := by
  intro hs
  simp only [State.step, State.loopStep, hs, Option.some_inj] at he
  have hg := (congrArg State.loop he).trans hl
  cases task' with
  | none => cases hg
  | some x =>
    simp only [State.goto, ProcessFrame.got] at hg
    split at hg <;> cases hg

namespace ReturnInvariant

theorem step (h : ReturnInvariant s g) (hc : CallInvariant s) (he : s.step a = some t) :
    ReturnInvariant t (.note s a t g) := by
  by_cases ha : a = .loop
  · subst ha
    constructor
    · intro p hl hp
      cases arrival_of_step he hl fun _ => not_got_twice he hl with
      | quitting hn hs =>
        simp only [State.step, State.loopStep, hn, Option.some_inj] at he
        exact .inl (he ▸ hs)
      | @waited f result hw hf hr =>
        refine .inr ?_
        have hfit := hc.frame f (by rw [hw]; rfl)
        rw [hf] at hfit
        cases result with
        | false => simp [ReturnHistory.note, hw]
        | true => exact absurd (hfit.forever hp) (hr rfl)
    · intro p x hl
      cases arrival_of_step he hl fun _ => not_got_twice he hl with
      | took ht => simp [ReturnHistory.note, ht]
  · rw [ReturnHistory.note_of_ne ha]
    constructor
    · intro p hl hp
      refine (h.empty p (got_of_ne ha he hl) hp).imp_left fun hs => ?_
      by_contra hn
      rw [Bool.not_eq_true] at hn
      rw [((step_turn he).refused hn).1] at hs
      cases hs
    · intro p x hl
      exact h.task p x (got_of_ne ha he hl)

/-- A step adds returns that keep the contract exactly if it is heeded. -/
theorem heeded_iff (h : ReturnInvariant s g) (he : s.step a = some t) :
    ∃ new, (ReturnHistory.note s a t g).returns = g.returns ++ new ∧ ((∀ r ∈ new, r.Kept) ↔ Heeded s a) := by
  by_cases ha : a = .loop
  · subst ha
    cases hl : s.loop with
    | got p task =>
      simp only [State.step, State.loopStep, hl, Option.some_inj] at he
      subst he
      cases task with
      | none =>
        refine ⟨[⟨p.cms,!s.stop,s.stop,g.waitFailed⟩],by simp [ReturnHistory.note, hl, ReturnHistory.noteReturn, State.goto,
          ProcessFrame.got],?_⟩
        rw [List.forall_mem_singleton, Return.kept_of_stop_iff]
        exact iff_of_true (h.empty p hl) (by simp [Heeded, hl])
      | some x =>
        by_cases hx : x.callable = true
        · exact ⟨[],by simp [ReturnHistory.note, hl, ReturnHistory.noteReturn, State.goto, ProcessFrame.got, hx],
            by simp [Heeded, hl, hx]⟩
        · refine ⟨[⟨p.cms,!s.stop,s.stop,g.waitFailed⟩],by simp [ReturnHistory.note, hl, ReturnHistory.noteReturn,
            State.goto, ProcessFrame.got, hx],?_⟩
          rw [List.forall_mem_singleton, Return.kept_of_stop_iff, h.task p x hl]
          simp [Heeded, hl, hx]
    | run p x =>
      simp only [State.step, State.loopStep, hl, Option.some_inj] at he
      subst he
      by_cases hp : p.cms ≠ kForever ∧ toInt (p.msEnd - s.timeMillis) < 0
      · refine ⟨[⟨p.cms,true,s.stop,g.waitFailed⟩],by simp [ReturnHistory.note, hl, ReturnHistory.noteReturn, State.goto,
          ProcessFrame.next, hp],?_⟩
        rw [List.forall_mem_singleton, Return.kept_of_spent_iff hp.1]
        simp [Heeded, hl, hp]
      · refine ⟨[],?_,by simp [Heeded, hl, hp]⟩
        simp only [ReturnHistory.note, hl, ReturnHistory.noteReturn, State.goto, ProcessFrame.next, List.append_nil]
        by_cases hf : p.cms = kForever
        · rw [if_neg (not_not.mpr hf)]
        · rw [if_pos hf, if_neg fun ht => hp ⟨hf,ht⟩]
    | _ => exact ⟨[],by simp [ReturnHistory.note, hl],by simp [Heeded, hl]⟩
  · refine ⟨[],by rw [ReturnHistory.note_of_ne ha, List.append_nil],?_⟩
    cases a with
    | loop => exact absurd rfl ha
    | _ => simp [Heeded]

end ReturnInvariant

/-- In every run why Get returned no task is on record. -/
theorem returnInvariant {s : State ι} {g : ReturnHistory} {ok : State ι × ReturnHistory → Action ι → Prop}
    (h : (contractMachine ι).Reachable ok (s,g)) : CallInvariant s ∧ ReturnInvariant s g := by
  apply h.rule (I := fun p => CallInvariant p.1 ∧ ReturnInvariant p.1 p.2)
  · rintro ⟨u,_⟩ ⟨hu,rfl⟩
    refine ⟨.of_init hu,?_⟩
    obtain ⟨nanos,rfl | rfl⟩ := hu
    · constructor <;> simp [State.start]
    · constructor <;> simp [State.start]
  · rintro p a q ⟨hc,hr⟩ - he
    obtain ⟨he,hg⟩ := Machine.recorded_step he
    exact ⟨hc.of_step he,hg ▸ hr.step hc he⟩

/-- The runs in which every return of ProcessMessages keeps its contract are those whose steps are all heeded. -/
theorem contract_kept_iff {s : State ι} {g : ReturnHistory} :
    (contractMachine ι).Reachable (fun p a => Heeded p.1 a) (s,g) ↔
      (contractMachine ι).Reachable Machine.Free (s,g) ∧ ∀ r ∈ g.returns, r.Kept := by
  refine Machine.reachable_iff_forall_items ReturnHistory.returns Return.Kept rfl fun u a v hu he => ?_
  obtain ⟨he,hg⟩ := Machine.recorded_step he
  rw [hg]
  exact (returnInvariant hu).2.heeded_iff he

theorem init_contract : (contractMachine ℕ).init (.start (.physical .fresh false) 0,.start) := ⟨init_start 0,rfl⟩

/-- An empty function ends ProcessMessages(kForever) with true. -/
theorem contract_broken : ¬∀ (s : State ℕ) (g : ReturnHistory), (contractMachine ℕ).Reachable Machine.Free (s,g) →
    ∀ r ∈ g.returns, r.Kept := by
  intro hall
  have h : ((contractMachine ℕ).run Machine.Free (.start (.physical .fresh false) 0,.start)
      [.post 0 (.task false), .poster 0, .poster 0, .processMessages (-1), .loop, .loop, .loop]).any
      (fun p => decide (⟨kForever,true,false,false⟩ ∈ p.2.returns)) = true := by
    decide +kernel
  obtain ⟨⟨s,g⟩,hs,hp⟩ := Machine.exists_reachable_of_run init_contract h
  have hk := hall s g hs _ (of_decide_eq_true hp)
  rcases hk.forever rfl with hq | hw
  · cases hq
  · cases hw

/-- A Quit while ProcessMessages(0) dispatches for a millisecond does not make it return false. -/
example : ((contractMachine ℕ).run Machine.Free (.start (.physical .fresh false) 0,.start)
    [.post 0 (.task true), .poster 0, .poster 0, .processMessages 0, .loop, .loop, .loop, .quit, .tick 1000000, .loop]).any
    (fun p => decide (p.2.returns = [⟨0,true,true,false⟩])) = true := by
  decide +kernel

end
end UServer.Concurrency
