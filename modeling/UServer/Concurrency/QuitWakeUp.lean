import UServer.Concurrency.ThreadTurns

/-! A call of Quit is seen by a loop thread that waits without a timeout, unless the thread is
already past its look at stop_: the store wakes nobody. -/
namespace UServer.Concurrency
open Library

variable {ι : Type*}

namespace State

/-- A wait of Get(kForever) that neither a delayed task nor a WakeUp will end. -/
def Endless (s : State ι) (wait : Option GetFrame) : Prop :=
  (∃ f ∈ wait, f.cmsWait = kForever) ∧ s.queue.delayed.items = [] ∧ ¬ s.ss.WakeUpPending

instance (s : State ι) (wait : Option GetFrame) : Decidable (s.Endless wait) := inferInstanceAs (Decidable (_ ∧ _ ∧ _))

/-- The loop thread is blocked in such a wait or about to enter it. -/
def Stuck (s : State ι) : Prop := s.Endless (s.loop.blocking s.ss.flagWait)

instance (s : State ι) : Decidable s.Stuck := inferInstanceAs (Decidable (s.Endless _))

end State

/-- Quit and Stop are not called while the loop thread is in such a wait or about to enter it. -/
def QuitInTime (s : State ι) (a : Action ι) : Prop :=
  (a matches .quit | .stop) = true → ¬ s.Endless (s.loop.inWait s.ss.flagWait)

instance (s : State ι) (a : Action ι) : Decidable (QuitInTime s a) := inferInstanceAs (Decidable (_ → _))

/-- Once quitting, a wait that the loop thread is in has something that will end it. -/
structure QuitInvariant (s : State ι) : Prop where
  heard : s.stop = true → ¬ s.Endless (s.loop.inWait s.ss.flagWait)
  joining : s.joining = true → s.stop = true

namespace QuitInvariant
variable {s t : State ι}

private theorem not_endless_none (t : State ι) : ¬ t.Endless none := fun ⟨⟨_,hf,_⟩,_⟩ => nomatch hf

/-- A step that stores nothing to stop_, moves into no endless wait and uses up no WakeUp. -/
private theorem keep (h : QuitInvariant s) (hs : t.stop = s.stop) (hj : t.joining = true → s.joining = true)
    (ht : s.stop = true → t.Endless (t.loop.inWait t.ss.flagWait) → s.Endless (s.loop.inWait s.ss.flagWait)) :
    QuitInvariant t :=
  ⟨fun hst he => h.heard (hs ▸ hst) (ht (hs ▸ hst) he),fun hst => hs ▸ h.joining (hj hst)⟩

/-- A step that only posts keeps an endless wait endless at most. -/
private theorem post (h : QuitInvariant s) (hs : t.stop = s.stop) (hj : t.joining = s.joining) (hl : t.loop = s.loop)
    (hf : t.ss.flagWait = s.ss.flagWait) (hd : t.queue.delayed.items = [] → s.queue.delayed.items = [])
    (hw : s.ss.WakeUpPending → t.ss.WakeUpPending) : QuitInvariant t := by
  refine h.keep hs (fun hst => hj ▸ hst) fun _ ⟨hwait,hi,hn⟩ => ⟨?_,hd hi,fun hp => hn (hw hp)⟩
  rwa [hl, hf] at hwait

variable [DecidableEq ι]

private theorem push (h : QuitInvariant s) (i : ι) (callable : Bool) (delay : Option (ℤ × ℤ)) :
    QuitInvariant ((s.push callable delay).setPoster i .wakeUp) := by
  refine h.post rfl rfl rfl rfl (fun hi => ?_) id
  cases delay with
  | none => exact hi
  | some d => exact List.sublist_nil.mp (hi ▸ s.queue.delayed.sublist_push)

theorem of_turn {a : Action ι} (h : QuitInvariant s) (hq : QuitInTime s a) (ht : Turn s a t) : QuitInvariant t := by
  cases ht with
  | tick n => exact h.post rfl rfl rfl rfl id id
  | move hm =>
    refine h.keep rfl id fun hst ⟨⟨f,hf,hc⟩,hrest⟩ => ?_
    rcases hm.inWait hf with hold | ⟨-,hn⟩
    · exact ⟨⟨f,hold,hc⟩,hrest⟩
    · cases hst.symm.trans hn
  | give => exact h.keep rfl id fun _ he => absurd he (not_endless_none _)
  | look => exact h.keep rfl id fun _ he => absurd he (not_endless_none _)
  | @enter f d g flag hl hss =>
    refine h.keep rfl id fun _ ⟨⟨f',hf,hc⟩,hi,hn⟩ => ?_
    obtain rfl : f = f' := (f.waitEpoll_get d s.timeMillis).symm.trans (Option.some_inj.mp hf)
    rw [State.Endless, hl, hss]
    exact ⟨⟨f,rfl,hc⟩,hi,hn⟩
  | onEvent => exact h.keep rfl id fun _ he => absurd he (not_endless_none _)
  | reset => exact h.keep rfl id fun _ he => absurd he (not_endless_none _)
  | pace => exact h.post rfl rfl rfl rfl id id
  | refuse => exact h.post rfl rfl rfl rfl id id
  | push => exact h.push _ _ _
  | set hp hss => exact h.post rfl rfl rfl (by rw [hss]; rfl) id fun _ => rfl
  | coalesce => exact h.post rfl rfl rfl rfl id id
  | lock hp hss => exact h.post rfl rfl rfl (by rw [hss]; rfl) id (by rw [hss]; exact id)
  | write hp hss => exact h.post rfl rfl rfl (by rw [hss]; rfl) id fun _ => Nat.succ_pos _
  | unlock hp hss => exact h.post rfl rfl rfl (by rw [hss]; rfl) id (by rw [hss]; exact id)
  | quit => exact ⟨fun _ => hq rfl,fun _ => rfl⟩
  | stop => exact ⟨fun _ => hq rfl,fun _ => rfl⟩
  | join => exact ⟨h.heard,nofun⟩

end QuitInvariant

variable [DecidableEq ι]

/-- In every run in which Quit and Stop are only called in time, the loop thread is never stuck once
Quit has stored to stop_, so Join does not wait for a thread that nothing will wake. -/
theorem quit_not_lost {s : State ι} (h : (threadMachine ι).Reachable QuitInTime s)
    (hs : s.stop = true ∨ s.joining = true) : ¬ s.Stuck := by
  have hi : QuitInvariant s := by
    refine Machine.Reachable.rule h ?_ fun u a v hu ha hv => hu.of_turn ha (step_turn hv)
    rintro u ⟨nanos,rfl | rfl⟩
    · exact ⟨nofun,nofun⟩
    · exact ⟨nofun,nofun⟩
  rintro ⟨⟨f,hf,hc⟩,hrest⟩
  exact hi.heard (hs.elim id hi.joining) ⟨⟨f,LoopPc.inWait_of_blocking hf,hc⟩,hrest⟩

/-- A Stop while the loop thread runs a task. -/
theorem quit_not_lost_sample : ∃ s : State ℕ, s.joining = true ∧ s.loop = .got ⟨kForever,0⟩ none ∧ ¬ s.Stuck := by
  have h : ((threadMachine ℕ).run QuitInTime (.start (.physical .fresh false) 0)
      [.post 0 (.task true), .poster 0, .poster 0, .poster 0, .poster 0, .poster 0, .processMessages (-1), .loop, .loop,
        .loop, .stop, .loop, .loop, .loop, .loop]).any
      (fun s => decide (s.joining = true ∧ s.loop = .got ⟨kForever,0⟩ none)) = true := by
    decide +kernel
  obtain ⟨s,hs,hp⟩ := Machine.exists_reachable_of_run (init_start 0) h
  obtain ⟨hj,hl⟩ := of_decide_eq_true hp
  exact ⟨s,hj,hl,quit_not_lost hs (.inr hj)⟩

/-- A Stop while the loop thread is in epoll_wait on an empty Thread leaves it there. -/
theorem quit_lost : ¬∀ s : State ℕ, (threadMachine ℕ).Reachable Machine.Free s →
    s.stop = true ∨ s.joining = true → ¬ s.Stuck := by
  intro hall
  have h : ((threadMachine ℕ).run Machine.Free (.start (.physical .fresh false) 0)
      [.processMessages (-1), .loop, .loop, .loop, .loop, .loop, .stop]).any
      (fun s => decide (s.joining = true ∧ s.Stuck)) = true := by
    decide +kernel
  obtain ⟨s,hs,hp⟩ := Machine.exists_reachable_of_run (init_start 0) h
  obtain ⟨hj,hst⟩ := of_decide_eq_true hp
  exact hall s hs (.inr hj) hst

end UServer.Concurrency
