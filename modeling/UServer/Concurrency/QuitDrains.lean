import UServer.Concurrency.TaskOrder
import UServer.Library.History

/-! What quitting leaves in the queue: ProcessMessages has dispatched every task that Get could see when it
last looked, and none that came between that look and the test of stop_. -/
namespace UServer.Concurrency
open Library

/-- What a run did so far: the task each call of PostTask under way has pushed, the tasks whose call has returned,
those that had returned when Quit was first called, those pushed when Get last found the queue empty, those
dispatched, and whether the last Get to return did so because it is quitting. -/
structure QuitHistory (ι : Type*) where
  pushed : ι → Option Task
  posted : List Task
  beforeQuit : List Task
  looked : List Task
  dispatched : List Task
  byQuit : Bool

namespace QuitHistory
variable {ι : Type*} [DecidableEq ι]

def start : QuitHistory ι := ⟨fun _ => none,[],[],[],[],false⟩

/-- What a step of the loop thread adds. -/
def noteLoop (s t : State ι) (g : QuitHistory ι) : QuitHistory ι :=
  match s.loop with
  | .take _ =>
    match t.loop with
    | .check _ _ => { g with looked := s.accepted, byQuit := false }
    | _ => { g with byQuit := false }
  | .check _ _ => { g with byQuit := s.stop }
  | .run _ task => { g with dispatched := g.dispatched ++ [task] }
  | _ => g

/-- What a step of a posting thread adds. -/
def notePoster (s : State ι) (i : ι) (t : State ι) (g : QuitHistory ι) : QuitHistory ι :=
  match s.posters i with
  | .push _ _ => { g with pushed := Function.update g.pushed i t.accepted.getLast? }
  | _ =>
    if t.posters i = .idle then
      { g with pushed := Function.update g.pushed i none, posted := g.posted ++ (g.pushed i).toList }
    else g

def note (s : State ι) (a : Action ι) (t : State ι) (g : QuitHistory ι) : QuitHistory ι :=
  match a with
  | .loop => noteLoop s t g
  | .poster i => notePoster s i t g
  | .quit | .stop => if s.stop then g else { g with beforeQuit := g.posted }
  | _ => g

end QuitHistory

/-- The Thread with a record of what was posted, seen and dispatched. -/
def quitMachine (ι : Type*) [DecidableEq ι] : Machine (State ι × QuitHistory ι) (Action ι) :=
  (threadMachine ι).recorded .start QuitHistory.note

/-- ProcessMessages returned because of quitting. -/
def ReturnedByQuit {ι : Type*} (s : State ι) (g : QuitHistory ι) : Prop :=
  s.loop = .outside (some false) ∧ g.byQuit = true

/-- Every task whose PostTask returned before Quit was called is dispatched when ProcessMessages returns. -/
def DrainsOnQuit {ι : Type*} (s : State ι) (g : QuitHistory ι) : Prop :=
  ReturnedByQuit s g → ∀ t ∈ g.beforeQuit, t.callable = true → t.due = none → t ∈ g.dispatched

/-- The task that Get returned and that is not dispatched yet. -/
def LoopPc.inflight : LoopPc → Option Task
  | .got _ task => task
  | .run _ task => some task
  | _ => none

/-- What Get returned is dispatched or about to be, and what it could see when it found nothing is returned. -/
structure Dispatches {ι : Type*} (s : State ι) (g : QuitHistory ι) : Prop where
  returned : ∀ t ∈ s.returned, t.callable = true → t ∈ g.dispatched ∨ s.loop.inflight = some t
  looked : ∀ t ∈ g.looked, t.due = none → t ∈ s.returned

section Frame
variable {ι : Type*} [DecidableEq ι] {s t : State ι} {a : Action ι} {i : ι}

/-- Only a step of the loop thread takes a task or dispatches one. -/
theorem step_inflight (ha : a ≠ .loop) (h : s.step a = some t) :
    t.loop.inflight = s.loop.inflight ∧ t.returned = s.returned := by
  obtain ⟨hl,hr⟩ := step_aside ha h
  refine ⟨?_,hr⟩
  generalize t.loop = pc at hl
  cases hl with
  | stay => rfl
  | enter h | interrupted h | answered h | ready h | unpark h | gaveUp h | exit h =>
    rw [h]
    rfl

/-- What a step of the loop thread is to the tasks on their way from the queue to Dispatch. -/
inductive LoopEffect (s t : State ι) : Prop
  | take {f : GetFrame} (hl : s.loop = .take f) (he : t = s.take f)
  | got {p : ProcessFrame} {task : Option Task} (hl : s.loop = .got p task) (he : t = s.goto (p.got s.stop task))
  | run {p : ProcessFrame} {x : Task} (hl : s.loop = .run p x) (ht : t.loop.inflight = none) (hr : t.returned = s.returned)
  | idle (hs : s.loop.inflight = none) (hn : ∀ f, s.loop ≠ .take f) (ht : t.loop.inflight = none)
      (hr : t.returned = s.returned)

/-- With no task on its way and no look at the queue a step of the loop thread takes none. -/
theorem turn_idle (h : Turn s .loop t) (hs : s.loop.inflight = none) (hn : ∀ f, s.loop ≠ .take f) :
    t.loop.inflight = none ∧ t.returned = s.returned := by
  cases h with
  | move hm =>
    cases hm with
    | run hl =>
      rw [hl] at hs
      cases hs
    | _ => exact ⟨rfl,rfl⟩
  | give hl => exact absurd hl (hn _)
  | look hl => exact absurd hl (hn _)
  | pace => exact ⟨hs,rfl⟩
  | _ => exact ⟨rfl,rfl⟩

theorem loopStep_effect (h : s.loopStep = some t) : LoopEffect s t := by
  cases hl : s.loop with
  | take f =>
    simp only [State.loopStep, hl, Option.some_inj] at h
    exact .take hl h.symm
  | got p task =>
    simp only [State.loopStep, hl, Option.some_inj] at h
    exact .got hl h.symm
  | run p x =>
    simp only [State.loopStep, hl, Option.some_inj] at h
    subst h
    refine .run hl ?_ rfl
    simp only [State.goto, ProcessFrame.next]
    split
    · split
      · rfl
      · rfl
    · rfl
  | _ =>
    have hs : s.loop.inflight = none := by rw [hl]; rfl
    have hn : ∀ f, s.loop ≠ .take f := by simp [hl]
    obtain ⟨ht,hr⟩ := turn_idle (step_turn h) hs hn
    exact .idle hs hn ht hr

end Frame

namespace QuitHistory
variable {ι : Type*} [DecidableEq ι] {s t : State ι} {g : QuitHistory ι} {a : Action ι}

/-- Only a step of the loop thread is a look or a dispatch. -/
theorem note_of_ne (ha : a ≠ .loop) : (note s a t g).dispatched = g.dispatched ∧ (note s a t g).looked = g.looked := by
  cases a with
  | loop => exact absurd rfl ha
  | poster i =>
    rw [note, notePoster]
    split
    · exact ⟨rfl,rfl⟩
    · split
      · exact ⟨rfl,rfl⟩
      · exact ⟨rfl,rfl⟩
  | quit | stop =>
    rw [note]
    split
    · exact ⟨rfl,rfl⟩
    · exact ⟨rfl,rfl⟩
  | _ => exact ⟨rfl,rfl⟩

theorem note_idle (hs : s.loop.inflight = none) (hn : ∀ f, s.loop ≠ .take f) :
    (note s .loop t g).dispatched = g.dispatched ∧ (note s .loop t g).looked = g.looked := by
  rw [note, noteLoop]
  cases hl : s.loop with
  | take f => exact absurd hl (hn f)
  | run p x =>
    rw [hl] at hs
    cases hs
  | _ => exact ⟨rfl,rfl⟩

end QuitHistory

namespace Dispatches
variable {ι : Type*} [DecidableEq ι] {s t : State ι} {g : QuitHistory ι} {a : Action ι}

/-- The step of Get that looks at the queue, with what holds after it. -/
private theorem take (h : Dispatches s g) {f : GetFrame} (hl : s.loop = .take f) (ho : OrderInvariant (s.take f)) :
    Dispatches (s.take f) (.note s .loop (s.take f) g) := by
  have hd : ∀ x ∈ s.returned, x.callable = true → x ∈ g.dispatched := by
    intro x hx hc
    rcases h.returned x hx hc with hx | hx
    · exact hx
    · rw [hl] at hx
      cases hx
  cases hm : (s.queue.processDelayedMessage f.msCurrent).2.messages with
  | nil =>
    have ht : (s.take f).loop = .check { f with seen := (s.queue.processDelayedMessage f.msCurrent).2.delayed.items }
        (s.queue.processDelayedMessage f.msCurrent).1 ∧ (s.take f).returned = s.returned ∧
        (s.take f).accepted = s.accepted ∧ (s.take f).queue.messages = [] := by
      simp [State.take, hm]
    obtain ⟨htl,htr,hta,htq⟩ := ht
    simp only [QuitHistory.note, QuitHistory.noteLoop, hl, htl]
    refine ⟨fun x hx hc => .inl (hd x (htr ▸ hx) hc),fun x hx hdue => ?_⟩
    have hi := ho.immediate
    rw [htq, List.append_nil, hta] at hi
    have hmem : x ∈ s.accepted.filter fun x => x.due = none := List.mem_filter.mpr ⟨hx,by simpa using hdue⟩
    rw [← hi] at hmem
    exact (List.mem_filter.mp hmem).1
  | cons y rest =>
    have ht : (s.take f).loop = .got f.process (some y) ∧ (s.take f).returned = s.returned ++ [y] := by
      simp [State.take, hm]
    obtain ⟨htl,htr⟩ := ht
    simp only [QuitHistory.note, QuitHistory.noteLoop, hl, htl]
    refine ⟨fun x hx hc => ?_,fun x hx hdue => ?_⟩
    · rcases List.mem_append.mp (htr ▸ hx) with hx | hx
      · exact .inl (hd x hx hc)
      · rw [htl, List.mem_singleton.mp hx]
        exact .inr rfl
    · rw [htr]
      exact List.mem_append_left _ (h.looked x hx hdue)

/-- The step of ProcessMessages that tests what Get returned. -/
private theorem got (h : Dispatches s g) {p : ProcessFrame} {task : Option Task} (hl : s.loop = .got p task) :
    Dispatches (s.goto (p.got s.stop task)) (.note s .loop (s.goto (p.got s.stop task)) g) := by
  simp only [QuitHistory.note, QuitHistory.noteLoop, hl]
  refine ⟨fun x hx hc => ?_,h.looked⟩
  rcases h.returned x hx hc with hx | hx
  · exact .inl hx
  · rw [hl] at hx
    cases hx
    right
    simp [State.goto, ProcessFrame.got, hc, LoopPc.inflight]

theorem step (h : Dispatches s g) (ho : OrderInvariant t) (he : s.step a = some t) : Dispatches t (.note s a t g) := by
  by_cases ha : a = .loop
  · subst ha
    rcases loopStep_effect he with ⟨hl,rfl⟩ | ⟨hl,rfl⟩ | ⟨hl,ht,hr⟩ | ⟨hs,hn,ht,hr⟩
    · exact h.take hl ho
    · exact h.got hl
    · simp only [QuitHistory.note, QuitHistory.noteLoop, hl]
      refine ⟨fun x hx hc => .inl ?_,fun x hx hdue => hr ▸ h.looked x hx hdue⟩
      rcases h.returned x (hr ▸ hx) hc with hx | hx
      · exact List.mem_append_left _ hx
      · rw [hl] at hx
        cases hx
        exact List.mem_append_right _ (List.mem_singleton_self _)
    · obtain ⟨hd,hlk⟩ := QuitHistory.note_idle (t := t) (g := g) hs hn
      refine ⟨fun x hx hc => .inl ?_,fun x hx hdue => hr ▸ h.looked x (hlk ▸ hx) hdue⟩
      rcases h.returned x (hr ▸ hx) hc with hx | hx
      · exact hd ▸ hx
      · cases hs.symm.trans hx
  · obtain ⟨hi,hr⟩ := step_inflight ha he
    obtain ⟨hd,hlk⟩ := QuitHistory.note_of_ne (s := s) (t := t) (g := g) ha
    refine ⟨fun x hx hc => ?_,fun x hx hdue => ?_⟩
    · rw [hd, hi]
      exact h.returned x (hr ▸ hx) hc
    · rw [hr]
      exact h.looked x (hlk ▸ hx) hdue

end Dispatches

variable {ι : Type*} [DecidableEq ι]

theorem dispatches_of_reachable {s : State ι} {g : QuitHistory ι}
    (h : (quitMachine ι).Reachable Machine.Free (s,g)) : Dispatches s g := by
  have hf : (quitMachine ι).Reachable (fun p a => Machine.Free p.1 a) (s,g) := h.mono fun _ _ _ => trivial
  apply hf.rule_recorded (I := Dispatches)
  · rintro s ⟨nanos,rfl | rfl⟩
    · exact ⟨nofun,nofun⟩
    · exact ⟨nofun,nofun⟩
  · intro s g a t ht hi he
    exact hi.step (orderInvariant ht).1 he

/-- When ProcessMessages returns because of quitting, every task posted before Quit that was in the queue at the
last look of Get has been dispatched. -/
theorem quit_drains_seen {s : State ι} {g : QuitHistory ι}
    (h : (quitMachine ι).Reachable Machine.Free (s,g)) (hq : ReturnedByQuit s g) :
    ∀ t ∈ g.beforeQuit, t ∈ g.looked → t.callable = true → t.due = none → t ∈ g.dispatched := by
  intro t _ ht hc hdue
  have hd := dispatches_of_reachable h
  rcases hd.returned t (hd.looked t ht hdue) hc with hx | hx
  · exact hx
  · rw [hq.1] at hx
    cases hx

theorem init_quit : (quitMachine ℕ).init (.start (.physical .fresh false) 0,.start) := ⟨init_start 0,rfl⟩

/-- A task is posted and dispatched, and Quit is called while Get waits. -/
theorem quit_drains_seen_one : ∃ (s : State ℕ) (g : QuitHistory ℕ), (quitMachine ℕ).Reachable Machine.Free (s,g) ∧
    ReturnedByQuit s g ∧ g.beforeQuit = [⟨true,0,none⟩] ∧ (⟨true,0,none⟩ : Task) ∈ g.dispatched := by
  have h : ((quitMachine ℕ).run Machine.Free (.start (.physical .fresh false) 0,.start)
      [.post 0 (.task true), .poster 0, .poster 0, .poster 0, .poster 0, .poster 0, .processMessages (-1), .loop, .loop,
        .loop, .loop, .loop, .loop, .quit, .loop, .loop]).any
      (fun p => decide (p.1.loop = .outside (some false) ∧ p.2.byQuit = true ∧ p.2.beforeQuit = [⟨true,0,none⟩] ∧
        (⟨true,0,none⟩ : Task) ∈ p.2.looked)) = true := by decide +kernel
  obtain ⟨⟨s,g⟩,hs,hp⟩ := Machine.exists_reachable_of_run init_quit h
  obtain ⟨hl,hb,hq,hk⟩ := of_decide_eq_true hp
  exact ⟨s,g,hs,⟨hl,hb⟩,hq,quit_drains_seen hs ⟨hl,hb⟩ _ (by rw [hq]; exact List.mem_singleton_self _) hk rfl rfl⟩

/-- PostTask and Quit both run between the look of Get at the empty queue and its test of stop_. -/
theorem quit_leaves_task : ∃ (s : State ℕ) (g : QuitHistory ℕ), (quitMachine ℕ).Reachable Machine.Free (s,g) ∧
    g.beforeQuit = [⟨true,0,none⟩] ∧ g.dispatched = [] ∧ ¬ DrainsOnQuit s g := by
  have h : ((quitMachine ℕ).run Machine.Free (.start (.physical .fresh false) 0,.start)
      [.processMessages (-1), .loop, .loop, .post 0 (.task true), .poster 0, .poster 0, .poster 0, .poster 0, .poster 0,
        .quit, .loop, .loop]).any
      (fun p => decide (p.1.loop = .outside (some false) ∧ p.2.byQuit = true ∧ p.2.beforeQuit = [⟨true,0,none⟩] ∧
        p.2.dispatched = [])) = true := by decide +kernel
  obtain ⟨⟨s,g⟩,hs,hp⟩ := Machine.exists_reachable_of_run init_quit h
  obtain ⟨hl,hb,hq,hd⟩ := of_decide_eq_true hp
  refine ⟨s,g,hs,hq,hd,fun hdrain => ?_⟩
  have hm := hdrain ⟨hl,hb⟩ ⟨true,0,none⟩ (by rw [hq]; exact List.mem_singleton_self _) rfl rfl
  rw [hd] at hm
  cases hm

end UServer.Concurrency
