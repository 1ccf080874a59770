import UServer.Concurrency.ThreadTurns

/-! No posted task is slept on: between the look at the queues and epoll_wait every push is
followed by a byte in the pipe, or by a poster on its way to write one. -/
namespace UServer.Concurrency
open Library

/-- The Get whose next wait was decided on by a look at the queues that is not repeated before it. -/
def LoopPc.watching (flagWait : Bool) : LoopPc → Option GetFrame
  | .check f _ => some f
  | pc => pc.inWait flagWait

theorem LoopPc.watching_of_inWait {flagWait : Bool} {pc : LoopPc} {f : GetFrame} (h : pc.inWait flagWait = some f) :
    pc.watching flagWait = some f := by
  cases pc with
  | check g next => cases h
  | _ => exact h

variable {ι : Type*}

theorem LoopMove.watching {s : State ι} {pc : LoopPc} {f : GetFrame} (h : LoopMove s pc)
    (hf : pc.watching s.ss.flagWait = some f) : s.loop.watching s.ss.flagWait = some f := by
  have hw : pc.inWait s.ss.flagWait = some f := by
    cases h with
    | _ => exact hf
  rcases h.inWait hw with hold | ⟨⟨next,hl⟩,-⟩
  · exact LoopPc.watching_of_inWait hold
  · rw [hl]
    rfl

/-- The pipe holds a byte exactly while f_signaled_ is set, except inside Signal after the write. -/
structure SelfPipe (g : Signaler ι) (posters : ι → PosterPc) : Prop where
  holder : ∀ i, (posters i).Locking ↔ g.holder = some i
  free : g.holder = none → g.pipe = if g.fSignaled then 1 else 0
  held : ∀ i, g.holder = some i → g.fSignaled = false ∧ g.pipe = if posters i = .wrote then 1 else 0

namespace SelfPipe
variable {g : Signaler ι} {posters : ι → PosterPc} {i : ι} {pc : PosterPc}

theorem onEvent {g' : Signaler ι} (h : SelfPipe g posters) (hg : g.onEvent = some g') : SelfPipe g' posters := by
  unfold Signaler.onEvent at hg
  split at hg
  · cases hg
  · rename_i hn
    have hp := h.free hn
    split at hg
    · rename_i hf
      rw [if_pos hf] at hp
      rw [hp, if_neg one_ne_zero, Option.some_inj] at hg
      subst hg
      exact ⟨h.holder,fun _ => rfl,fun i hi => by cases hn.symm.trans hi⟩
    · exact Option.some_inj.mp hg ▸ h

/-- A poster that enters, moves within or leaves Signal, where it is alone. -/
private theorem alone (h : SelfPipe g posters) (ho : g.holder = none ∨ g.holder = some i) {j : ι} (hji : j ≠ i) :
    ¬ (posters j).Locking := by
  rw [h.holder]
  intro hj
  rcases ho with hn | hs
  · cases hn.symm.trans hj
  · exact hji (Option.some_inj.mp (hj.symm.trans hs))

variable [DecidableEq ι]

/-- A poster that is inside Signal neither before nor after its step. -/
theorem update (h : SelfPipe g posters) (hi : ¬ (posters i).Locking) (hpc : ¬ pc.Locking) :
    SelfPipe g (Function.update posters i pc) := by
  refine ⟨fun j => ?_,h.free,fun j hj => ?_⟩
  · by_cases hji : j = i
    · subst hji
      rw [Function.update_self, ← h.holder]
      exact iff_of_false hpc hi
    · rw [Function.update_of_ne hji, h.holder]
  · have hji : j ≠ i := fun he => hi ((h.holder i).mpr (he ▸ hj))
    rw [Function.update_of_ne hji]
    exact h.held j hj

theorem lock (h : SelfPipe g posters) (hn : g.holder = none) (hg : g.fSignaled = false) :
    SelfPipe { g with holder := some i } (Function.update posters i .signaling) := by
  refine ⟨fun j => ?_,nofun,fun j hj => ?_⟩
  · by_cases hji : j = i
    · subst hji
      simp [PosterPc.Locking]
    · simpa [Function.update_of_ne hji, Ne.symm hji] using h.alone (.inl hn) hji
  · cases hj
    rw [Function.update_self, if_neg (by decide), h.free hn, hg]
    exact ⟨rfl,rfl⟩

theorem write (h : SelfPipe g posters) (hi : posters i = .signaling) :
    SelfPipe { g with pipe := g.pipe + 1 } (Function.update posters i .wrote) := by
  have ho : g.holder = some i := (h.holder i).mp (.inl hi)
  refine ⟨fun j => ?_,fun hn => ?_,fun j hj => ?_⟩
  · by_cases hji : j = i
    · subst hji
      simp [PosterPc.Locking, ho]
    · rw [Function.update_of_ne hji, h.holder]
  · cases ho.symm.trans hn
  · cases ho.symm.trans hj
    obtain ⟨hf,hp⟩ := h.held i ho
    rw [Function.update_self, if_pos rfl, hp, hi]
    exact ⟨hf,rfl⟩

theorem unlock (h : SelfPipe g posters) (hi : posters i = .wrote) :
    SelfPipe g.unlock (Function.update posters i .idle) := by
  have ho : g.holder = some i := (h.holder i).mp (.inr hi)
  refine ⟨fun j => ?_,fun _ => ?_,nofun⟩
  · by_cases hji : j = i
    · subst hji
      simp [PosterPc.Locking, Signaler.unlock]
    · simpa [Function.update_of_ne hji, Signaler.unlock] using h.alone (.inr ho) hji
  · have hp := (h.held i ho).2
    rwa [if_pos hi] at hp

end SelfPipe

/-- Nothing is queued that the timeout of the Get does not count, or the loop thread is being woken. -/
def Covered (s : State ι) (f : GetFrame) : Prop :=
  (s.queue.messages = [] ∧ ∀ m ∈ s.queue.delayed.items, m ∈ f.seen) ∨ s.ss.WakeUpPending ∨ ∃ i, (s.posters i).Waking

structure WakeInvariant (s : State ι) : Prop where
  pipe : ∀ g flag, s.ss = .physical g flag → SelfPipe g s.posters
  covered : ∀ f, s.loop.watching s.ss.flagWait = some f → Covered s f

namespace WakeInvariant
variable {s t : State ι}

/-- A step of the loop thread or of the clock, to a state it watches with no new Get. -/
private theorem loop (h : WakeInvariant s) (hq : t.queue = s.queue) (hp : t.posters = s.posters)
    (hg : ∀ g flag, t.ss = .physical g flag → SelfPipe g s.posters)
    (hf : ∀ f, t.loop.watching t.ss.flagWait = some f → s.loop.watching s.ss.flagWait = some f ∧
      (s.ss.WakeUpPending → t.ss.WakeUpPending)) : WakeInvariant t := by
  refine ⟨hp ▸ hg,fun f hw => ?_⟩
  obtain ⟨hold,hwake⟩ := hf f hw
  rw [Covered, hq, hp]
  exact (h.covered f hold).imp_right (Or.imp_left hwake)

variable [DecidableEq ι]

/-- A step of a poster that had no one to wake, or leaves a WakeUp behind. -/
private theorem poster (h : WakeInvariant s) {i : ι} {pc : PosterPc} (hp : t.posters = Function.update s.posters i pc)
    (hl : t.loop = s.loop) (hq : t.queue = s.queue) (hf : t.ss.flagWait = s.ss.flagWait)
    (hg : ∀ g flag, t.ss = .physical g flag → SelfPipe g (Function.update s.posters i pc))
    (hw : s.ss.WakeUpPending → t.ss.WakeUpPending)
    (hi : (s.posters i).Waking → pc.Waking ∨ t.ss.WakeUpPending) : WakeInvariant t := by
  refine ⟨hp ▸ hg,fun f hfr => ?_⟩
  rw [hl, hf] at hfr
  rw [Covered, hq, hp]
  rcases h.covered f hfr with hold | hold | ⟨j,hj⟩
  · exact .inl hold
  · exact .inr (.inl (hw hold))
  · by_cases hji : j = i
    · subst hji
      rcases hi hj with hpc | hpend
      · exact .inr (.inr ⟨j,by rwa [Function.update_self]⟩)
      · exact .inr (.inl hpend)
    · exact .inr (.inr ⟨j,by rwa [Function.update_of_ne hji]⟩)

theorem of_turn {a : Action ι} (h : WakeInvariant s) (ht : Turn s a t) : WakeInvariant t := by
  cases ht with
  | tick n => exact h.loop rfl rfl h.pipe fun f hf => ⟨hf,id⟩
  | move hm => exact h.loop rfl rfl h.pipe fun f hf => ⟨hm.watching hf,id⟩
  | give =>
    refine ⟨h.pipe,fun f hf => ?_⟩
    cases hf
  | look hl hm =>
    refine ⟨h.pipe,fun f hf => ?_⟩
    cases hf
    exact .inl ⟨hm,fun _ => id⟩
  | @enter f d g flag hl hss =>
    refine h.loop rfl rfl (fun g' flag' hg => ?_) fun f' hf => ?_
    · cases hg
      exact h.pipe _ _ hss
    · rw [hl, hss]
      exact ⟨hf ▸ congrArg some (f.waitEpoll_get d s.timeMillis).symm,id⟩
  | onEvent hl hss hg =>
    refine h.loop rfl rfl (fun g' flag' hg' => ?_) fun f hf => ?_
    · cases hg'
      exact (h.pipe _ _ hss).onEvent hg
    · cases hf
  | reset =>
    refine h.loop rfl rfl (fun g flag hg => ?_) fun f hf => ?_
    · cases hg
    · cases hf
  | pace hi hpc =>
    exact h.poster rfl rfl rfl rfl (fun g flag hg => (h.pipe g flag hg).update hi.2 hpc.2) id fun hw => absurd hw hi.1
  | refuse hi =>
    refine h.poster rfl rfl rfl rfl (fun g flag hg => (h.pipe g flag hg).update ?_ ?_) id fun hw => ?_
    · simp [hi, PosterPc.Locking]
    · simp [PosterPc.Locking]
    · simp [hi, PosterPc.Waking] at hw
  | @push i callable delay hi =>
    refine ⟨fun g flag hg => (h.pipe g flag hg).update ?_ ?_,fun f hf => .inr (.inr ⟨i,?_⟩)⟩
    · simp [hi, PosterPc.Locking]
    · simp [PosterPc.Locking]
    · simp [State.setPoster, PosterPc.Waking]
  | set hi hss =>
    refine h.poster rfl rfl rfl (by rw [hss]; rfl) (fun g flag hg => ?_) (fun _ => rfl) fun _ => .inr rfl
    cases hg
  | @coalesce i g flag hi hss hn hg =>
    refine h.poster rfl rfl rfl rfl (fun g flag hg => (h.pipe g flag hg).update ?_ ?_) id fun _ => .inr ?_
    · simp [hi, PosterPc.Locking]
    · simp [PosterPc.Locking]
    · have hp := (h.pipe g flag hss).free hn
      rw [if_pos hg] at hp
      show s.ss.WakeUpPending
      rw [hss]
      exact lt_of_lt_of_eq one_pos hp.symm
  | lock hi hss hn hg =>
    refine h.poster rfl rfl rfl (by rw [hss]; rfl) (fun g' flag' hg' => ?_) (by rw [hss]; exact id)
      fun _ => .inl (.inr rfl)
    cases hg'
    exact (h.pipe _ _ hss).lock hn hg
  | write hi hss =>
    refine h.poster rfl rfl rfl (by rw [hss]; rfl) (fun g' flag' hg' => ?_) (fun _ => Nat.succ_pos _)
      fun _ => .inr (Nat.succ_pos _)
    cases hg'
    exact (h.pipe _ _ hss).write hi
  | unlock hi hss =>
    refine h.poster rfl rfl rfl (by rw [hss]; rfl) (fun g' flag' hg' => ?_) (by rw [hss]; exact id) fun hw => ?_
    · cases hg'
      exact (h.pipe _ _ hss).unlock hi
    · simp [hi, PosterPc.Waking] at hw
  | quit => exact h.loop rfl rfl h.pipe fun f hf => ⟨hf,id⟩
  | stop => exact h.loop rfl rfl h.pipe fun f hf => ⟨hf,id⟩
  | join => exact h.loop rfl rfl h.pipe fun f hf => ⟨hf,id⟩

end WakeInvariant

variable [DecidableEq ι]

/-- When the loop thread is in epoll_wait or about to call it and no post is under way, the pipe holds
a byte, or messages_ is empty and the timeout was computed from a heap with all delayed tasks. -/
theorem no_task_slept_on {s : State ι} (h : (threadMachine ι).Reachable Machine.Free s) {g : Signaler ι} {flag : Bool}
    {f : GetFrame} (hs : s.ss = .physical g flag) (hf : s.loop.blocking flag = some f)
    (hi : ∀ i, s.posters i = .idle) :
    0 < g.pipe ∨ s.queue.messages = [] ∧ ∀ m ∈ s.queue.delayed.items, m ∈ f.seen := by
  have hinv : WakeInvariant s := by
    refine Machine.Reachable.rule h ?_ fun u a v hu _ hv => hu.of_turn (step_turn hv)
    rintro u ⟨nanos,rfl | rfl⟩
    · refine ⟨fun g flag hg => ?_,fun f hf => ?_⟩
      · cases hg
        exact ⟨fun i => by simp [State.start, PosterPc.Locking, Signaler.fresh],fun _ => rfl,by simp [Signaler.fresh]⟩
      · cases hf
    · refine ⟨fun g flag hg => ?_,fun f hf => ?_⟩
      · cases hg
      · cases hf
  have hw : s.loop.watching s.ss.flagWait = some f := by
    rw [hs]
    exact LoopPc.watching_of_inWait (LoopPc.inWait_of_blocking hf)
  rcases hinv.covered f hw with hq | hp | ⟨i,hwi⟩
  · exact .inr hq
  · rw [hs] at hp
    exact .inl hp
  · rw [hi i] at hwi
    simp [PosterPc.Waking] at hwi

private def blockedOnPipe (s : State (Fin 2)) : Bool :=
  match s.ss with
  | .physical _ flag => decide ((s.loop.blocking flag).isSome ∧ (∀ i, s.posters i = .idle) ∧ s.accepted.length = 2)
  | .null _ => false

/-- A delayed task is posted during an endless wait, after another that the loop thread has run. -/
theorem no_task_slept_on_sample : ∃ s : State (Fin 2), ∃ g flag f, s.ss = .physical g flag ∧
    s.loop.blocking flag = some f ∧ s.accepted.length = 2 ∧
    (0 < g.pipe ∨ s.queue.messages = [] ∧ ∀ m ∈ s.queue.delayed.items, m ∈ f.seen) := by
  have h : ((threadMachine (Fin 2)).run Machine.Free (.start (.physical .fresh false) 0)
      [.processMessages (-1), .loop, .loop, .loop, .loop, .post 0 (.task true), .poster 0, .poster 0, .poster 0, .poster 0,
        .loop, .epollWait (.ready true), .poster 0, .loop, .loop, .loop, .loop, .loop, .loop, .loop, .loop, .loop, .loop,
        .loop, .loop, .post 1 (.delayed true 20), .poster 1, .poster 1, .poster 1, .poster 1, .poster 1, .poster 1]).any
      blockedOnPipe = true := by
    decide +kernel
  obtain ⟨s,hs,hp⟩ := Machine.exists_reachable_of_run (init_start 0) h
  unfold blockedOnPipe at hp
  split at hp
  · rename_i g flag hss
    obtain ⟨hf,hi,hn⟩ := of_decide_eq_true hp
    obtain ⟨f,hf⟩ := Option.isSome_iff_exists.mp hf
    exact ⟨s,g,flag,f,hss,hf,hn,no_task_slept_on hs hss hf hi⟩
  · cases hp

end UServer.Concurrency
