import UServer.Concurrency.PostedTasks
import UServer.Library.Tally
import UServer.Concurrency.TaskOrder

/-! A Thread over a PhysicalSocketServer, left to itself: with no further posts and nothing from outside but the wake-ups
already made, the loop thread and the posts under way come to rest after a bounded number of steps, and then no posted
task is left. Over a NullSocketServer the wait for ever returns at once, and the loop thread never rests. -/
namespace UServer.Concurrency
open Library

/-- The actions of a Thread that serves: ProcessMessages(kForever) alone is called, epoll_wait fails for EINTR at most,
every task can be called, and nobody quits. -/
def Serves {ι : Type*} (_ : State ι) : Action ι → Prop
  | .quit | .stop | .exit => False
  | .post _ (.task callable) | .post _ (.delayed callable _) => callable = true
  | .processMessages cms => cms.toInt = kForever
  | .epollWait answer => answer ≠ .failed false
  | .tick _ | .poster _ | .loop | .eventWait _ | .join => True

/-- The loop thread and the posts under way go on, and epoll_wait ends for a wake-up only. -/
def GoesOn {ι : Type*} (s : State ι) : Action ι → Prop
  | .loop => True
  | .poster i => (s.posters i).Waking ∨ (s.posters i).Locking
  | .epollWait answer => answer = .ready true ∧ s.ss.WakeUpPending
  | .tick _ | .post _ _ | .processMessages _ | .eventWait _ | .exit | .quit | .stop | .join => False

instance (pc : PosterPc) : Decidable pc.Waking := inferInstanceAs (Decidable (_ ∨ _))

instance (pc : PosterPc) : Decidable pc.Locking := inferInstanceAs (Decidable (_ ∨ _))

instance {ι : Type*} (s : State ι) (a : Action ι) : Decidable (Serves s a) :=
  match a with
  | .quit | .stop | .exit => .isFalse id
  | .post _ (.task _) | .post _ (.delayed _ _) => inferInstanceAs (Decidable (_ = true))
  | .processMessages _ => inferInstanceAs (Decidable (_ = kForever))
  | .epollWait _ => inferInstanceAs (Decidable (_ ≠ _))
  | .tick _ | .poster _ | .loop | .eventWait _ | .join => .isTrue trivial

instance {ι : Type*} (s : State ι) (a : Action ι) : Decidable (GoesOn s a) :=
  match a with
  | .loop => .isTrue trivial
  | .poster _ => inferInstanceAs (Decidable (_ ∨ _))
  | .epollWait _ => inferInstanceAs (Decidable (_ ∧ _))
  | .tick _ | .post _ _ | .processMessages _ | .eventWait _ | .exit | .quit | .stop | .join => .isFalse id

theorem GoesOn.serves {ι : Type*} {s : State ι} {a : Action ι} (h : GoesOn s a) : Serves s a := by
  cases a with
  | epollWait answer =>
    obtain ⟨rfl,-⟩ := h
    simp [Serves]
  | loop | poster i => trivial
  | _ => exact h.elim

def ProcessFrame.Endless (p : ProcessFrame) : Prop := p.cms = kForever

def GetFrame.Endless (f : GetFrame) : Prop := f.process.Endless ∧ f.cmsWait = kForever

/-- The loop thread is in ProcessMessages(kForever), on no way out of it, and waits in WaitEpoll where it waits. -/
def LoopPc.Serving : LoopPc → Prop
  | .outside _ | .park _ _ | .parked _ _ | .exited => False
  | .call p cmsNext => p.Endless ∧ cmsNext = kForever
  | .take f | .check f _ | .wait f _ => f.Endless
  | .test w | .epoll w | .dispatch w _ | .elapse w => w.get.Endless
  | .waited f result => f.Endless ∧ result = true
  | .got p task => p.Endless ∧ ∃ t ∈ task, t.callable = true
  | .run p _ => p.Endless

/-- The task that a post brings can be called. -/
def PosterPc.Callable : PosterPc → Prop
  | .started (.task callable) | .started (.delayed callable _) | .timing callable _ | .push callable _ => callable = true
  | .idle | .wakeUp | .signaling | .wrote => True

structure Serving {ι : Type*} (s : State ι) : Prop where
  physical : ∃ g flag, s.ss = .physical g flag
  stop : s.stop = false
  queued : ∀ t ∈ s.queue.pending, t.callable = true
  posters : ∀ i, (s.posters i).Callable
  loop : s.loop = .outside none ∨ s.loop.Serving

section
variable {ι : Type*} {s t : State ι}

theorem GetFrame.waitEpoll_endless {f : GetFrame} (h : f.Endless) (d now : ℤ) : (f.waitEpoll d now).get.Endless := by
  rwa [GetFrame.waitEpoll_get]

theorem EpollFrame.elapse_serving {w : EpollFrame} (h : w.get.Endless) (micros : ℤ) : (w.elapse micros).Serving := by
  unfold EpollFrame.elapse
  split
  · split
    · exact ⟨h,rfl⟩
    · exact h
  · exact h

/-- Get, which has no timeout, looks at the queues again. -/
theorem GetFrame.waited_endless {f : GetFrame} (h : f.Endless) (now : ℤ) :
    f.waited now true = .take { f with msCurrent := now, cmsElapsed := timeDiff now f.msStart } := by
  unfold GetFrame.waited
  rw [if_neg Bool.true_eq_false_eq_False, if_neg fun hn => hn.1 h.2]

theorem ProcessFrame.got_endless (p : ProcessFrame) {t : Task} (h : t.callable = true) (stop : Bool) :
    p.got stop (some t) = .run p t := by
  rw [ProcessFrame.got, if_pos h]

theorem ProcessFrame.next_endless {p : ProcessFrame} (h : p.Endless) (now : ℤ) : p.next now = .call p kForever := by
  rw [ProcessFrame.next, if_neg fun hn => hn h, h]

/-- Moving due tasks from the heap to messages_ leaves the same tasks queued. -/
theorem TaskQueue.processDelayedMessage_pending (q : TaskQueue) (now : ℤ) :
    (q.processDelayedMessage now).2.pending = q.pending := by
  obtain ⟨due,-,hi,hm,-⟩ := q.processDelayedMessage_spec now
  rw [TaskQueue.pending, TaskQueue.pending, hm, hi, List.map_append, List.append_assoc]

/-- The wake-ups stored and not used yet. -/
def SocketServer.tokens : SocketServer ι → ℕ
  | .physical g _ => g.pipe
  | .null event => if event then 1 else 0

theorem SocketServer.wakeUpPending_iff (ss : SocketServer ι) : ss.WakeUpPending ↔ 0 < ss.tokens := by
  cases ss with
  | physical g flag => exact Iff.rfl
  | null event => cases event <;> simp [WakeUpPending, tokens]

/-- The wake-ups that a post under way may still store, and its steps up to that. -/
def PosterPc.tokens : PosterPc → ℕ
  | .wakeUp => 4
  | .signaling => 3
  | .wrote => 1
  | .idle | .started _ | .timing _ _ | .push _ _ => 0

/-- The steps of the loop thread until it takes a task, uses a wake-up or blocks. -/
def LoopPc.rank (ss : SocketServer ι) : LoopPc → ℕ
  | .outside _ | .park _ _ | .parked _ _ | .exited => 0
  | .dispatch _ false => 9
  | .dispatch _ true => if ss.tokens = 0 then 9 else 0
  | .elapse _ | .got _ _ => 8
  | .run _ _ => 7
  | .test _ => if ss.flagWait then 2 else 7
  | .waited _ _ | .call _ _ => 6
  | .take _ => 5
  | .check _ _ => 4
  | .wait _ _ => 3
  | .epoll _ => 1

theorem LoopPc.rank_le (ss : SocketServer ι) (pc : LoopPc) : pc.rank ss ≤ 9 := by
  cases pc with
  | dispatch w signaler =>
    cases signaler with
    | false => exact le_rfl
    | true =>
      simp only [rank]
      split <;> omega
  | test w =>
    simp only [rank]
    split <;> omega
  | _ => simp [rank]

/-- What the loop thread has before it. -/
def State.load (s : State ι) : ℕ := 10 * (s.queue.pending.length + s.ss.tokens) + s.loop.rank s.ss

/-- What a step of a serving loop thread leaves. -/
structure Advances (s t : State ι) : Prop where
  physical : ∃ g flag, t.ss = .physical g flag
  stop : t.stop = s.stop
  posters : t.posters = s.posters
  queued : ∀ x ∈ t.queue.pending, x ∈ s.queue.pending
  loop : t.loop.Serving
  load : t.load < s.load

theorem Advances.goto {g : Signaler ι} {flag : Bool} (hss : s.ss = .physical g flag) {pc : LoopPc} (hpc : pc.Serving)
    (hr : pc.rank s.ss < s.loop.rank s.ss) : Advances s (s.goto pc) :=
  ⟨⟨g,flag,hss⟩,rfl,rfl,fun _ => id,hpc,Nat.add_lt_add_left hr _⟩

theorem advances_take {g : Signaler ι} {flag : Bool} (hss : s.ss = .physical g flag) {f : GetFrame}
    (hl : s.loop = .take f) (hf : f.Endless)
    (hq : ∀ x ∈ s.queue.pending, x.callable = true) : Advances s (s.take f) := by
  have hp := s.queue.processDelayedMessage_pending f.msCurrent
  unfold State.take
  dsimp only
  split
  · rename_i x rest hm
    have hpend : s.queue.pending =
        x :: TaskQueue.pending { (s.queue.processDelayedMessage f.msCurrent).2 with messages := rest } := by
      rw [← hp, TaskQueue.pending, hm]
      rfl
    refine ⟨⟨g,flag,hss⟩,rfl,rfl,fun y hy => hpend ▸ List.mem_cons_of_mem _ hy,⟨hf.1,x,rfl,hq x ?_⟩,?_⟩
    · rw [hpend]
      exact List.mem_cons_self
    · simp only [State.load, hpend, hl, List.length_cons, LoopPc.rank]
      omega
  · refine ⟨⟨g,flag,hss⟩,rfl,rfl,fun y hy => hp ▸ hy,hf,?_⟩
    simp only [State.load, hp, hl, LoopPc.rank]
    omega

theorem advances_loop {g : Signaler ι} {flag : Bool} (hss : s.ss = .physical g flag) (hl : s.loop.Serving)
    (hs : s.stop = false) (hq : ∀ x ∈ s.queue.pending, x.callable = true) (hp : SelfPipe g s.posters)
    (h : s.loopStep = some t) : Advances s t := by
  cases hpc : s.loop with
  | call p n =>
    rw [hpc] at hl
    simp only [State.loopStep, hpc, Option.some_inj] at h
    exact h ▸ .goto hss hl (by simp [hpc, LoopPc.rank])
  | take f =>
    rw [hpc] at hl
    simp only [State.loopStep, hpc, Option.some_inj] at h
    exact h ▸ advances_take hss hpc hl hq
  | check f n =>
    rw [hpc] at hl
    simp only [State.loopStep, hpc, hs, Bool.false_eq_true, if_false, Option.some_inj] at h
    exact h ▸ .goto hss hl (by simp [hpc, LoopPc.rank])
  | wait f d =>
    rw [hpc] at hl
    simp only [State.loopStep, hpc, hss, Option.some_inj] at h
    subst h
    refine ⟨⟨g,true,rfl⟩,rfl,rfl,fun _ => id,GetFrame.waitEpoll_endless hl d _,?_⟩
    simp only [State.load, hpc, hss, LoopPc.rank, SocketServer.flagWait, SocketServer.tokens, if_true]
    omega
  | test w =>
    rw [hpc] at hl
    simp only [State.loopStep, hpc, Option.some_inj] at h
    subst h
    split
    · rename_i hf
      exact .goto hss hl (by simp [hpc, LoopPc.rank, hf])
    · rename_i hf
      exact .goto hss ⟨hl,rfl⟩ (by simp [hpc, LoopPc.rank, hf])
  | dispatch w signaler =>
    rw [hpc] at hl
    cases signaler with
    | false =>
      simp only [State.loopStep, hpc, Option.some_inj] at h
      exact h ▸ .goto hss hl (by simp [hpc, LoopPc.rank])
    | true =>
      simp only [State.loopStep, hpc, hss, Option.map_eq_some_iff] at h
      obtain ⟨g',hg,rfl⟩ := h
      refine ⟨⟨g',false,rfl⟩,rfl,rfl,fun _ => id,hl,?_⟩
      unfold Signaler.onEvent at hg
      split at hg
      · cases hg
      · rename_i hn
        have hbyte := hp.free hn
        split at hg
        · rename_i hf
          rw [if_pos hf] at hbyte
          rw [hbyte, if_neg one_ne_zero, Option.some_inj] at hg
          subst hg
          simp only [State.load, hpc, hss, LoopPc.rank, SocketServer.tokens, hbyte]
          omega
        · rename_i hf
          rw [if_neg hf] at hbyte
          cases hg
          simp only [State.load, hpc, hss, LoopPc.rank, SocketServer.tokens, hbyte, if_true]
          omega
  | elapse w =>
    rw [hpc] at hl
    simp only [State.loopStep, hpc, Option.some_inj] at h
    refine h ▸ .goto hss (EpollFrame.elapse_serving hl _) ?_
    unfold EpollFrame.elapse
    rw [hpc]
    split
    · split
      · simp [LoopPc.rank]
      · simp only [LoopPc.rank]
        split <;> decide
    · simp only [LoopPc.rank]
      split <;> decide
  | waited f result =>
    rw [hpc] at hl
    obtain ⟨hf,rfl⟩ := hl
    simp only [State.loopStep, hpc, Option.some_inj, GetFrame.waited_endless hf] at h
    exact h ▸ .goto hss hf (by simp [hpc, LoopPc.rank])
  | got p task =>
    rw [hpc] at hl
    obtain ⟨hf,x,hx,hcall⟩ := hl
    obtain rfl : task = some x := hx
    simp only [State.loopStep, hpc, Option.some_inj, ProcessFrame.got_endless p hcall] at h
    exact h ▸ .goto hss hf (by simp [hpc, LoopPc.rank])
  | run p task =>
    rw [hpc] at hl
    simp only [State.loopStep, hpc, Option.some_inj, ProcessFrame.next_endless hl] at h
    exact h ▸ .goto hss ⟨hl,rfl⟩ (by simp [hpc, LoopPc.rank])
  | epoll w => simp [State.loopStep, hpc] at h
  | outside r | park f d | parked f d | exited =>
    rw [hpc] at hl
    exact hl.elim

variable [DecidableEq ι]

theorem callable_update {posters : ι → PosterPc} {i : ι} {pc : PosterPc} (h : ∀ j, (posters j).Callable)
    (hpc : pc.Callable) (j : ι) : (Function.update posters i pc j).Callable := by
  by_cases hj : j = i
  · subst hj
    rwa [Function.update_self]
  · rw [Function.update_of_ne hj]
    exact h j

/-- A post under way pushes no task but a callable one, and leaves the loop thread where it is. -/
theorem Serving.posterStep (h : Serving s) {i : ι} (he : s.posterStep i = some t) : Serving t := by
  have hi := h.posters i
  obtain ⟨g,flag,hss⟩ := h.physical
  obtain ⟨hloop,-⟩ := posterStep_loop he
  have hrest {pc : PosterPc} {queue : TaskQueue} {t : State ι} (hss : ∃ g flag, t.ss = .physical g flag)
      (hl : t.loop = s.loop) (hs : t.stop = s.stop) (hp : t.posters = Function.update s.posters i pc)
      (hpc : pc.Callable) (hqueue : t.queue = queue) (hq : ∀ x ∈ queue.pending, x.callable = true) : Serving t :=
    ⟨hss,hs.trans h.stop,hqueue ▸ hq,hp ▸ callable_update h.posters hpc,hl ▸ h.loop⟩
  cases hp : s.posters i with
  | idle => simp [State.posterStep, hp] at he
  | started r =>
    rw [hp] at hi
    simp only [State.posterStep, hp, h.stop, Bool.false_eq_true, if_false, Option.some_inj] at he
    subst he
    refine hrest h.physical rfl rfl rfl ?_ rfl h.queued
    cases r <;> exact hi
  | timing callable delayMs =>
    rw [hp] at hi
    simp only [State.posterStep, hp, Option.some_inj] at he
    subst he
    exact hrest h.physical rfl rfl rfl hi rfl h.queued
  | push callable delay =>
    rw [hp] at hi
    simp only [State.posterStep, hp, Option.some_inj] at he
    subst he
    refine hrest h.physical rfl rfl rfl trivial rfl fun x hx => ?_
    have hmem : x ∈ s.queue.pending ∨ x.callable = callable := by
      cases delay with
      | none =>
        refine (List.mem_append.mp ((s.queue.post_pending _).2.mem_iff.mp hx)).imp_right fun hx => ?_
        rw [List.mem_singleton.mp hx]
      | some d =>
        refine (List.mem_append.mp ((s.queue.postDelayed_pending d.1 d.2 _).2.mem_iff.mp hx)).imp_right fun hx => ?_
        rw [List.mem_singleton.mp hx]
    rcases hmem with hx | hx
    · exact h.queued x hx
    · exact hx.trans hi
  | wakeUp =>
    simp only [State.posterStep, hp, hss, Option.ite_none_right_eq_some] at he
    obtain ⟨-,he⟩ := he
    split at he
    · cases he
      exact hrest h.physical rfl rfl rfl trivial rfl h.queued
    · cases he
      exact hrest ⟨_,flag,rfl⟩ rfl rfl rfl trivial rfl h.queued
  | signaling =>
    simp only [State.posterStep, hp, hss, Option.map_eq_some_iff] at he
    obtain ⟨g',-,rfl⟩ := he
    exact hrest ⟨g',flag,rfl⟩ rfl rfl rfl trivial rfl h.queued
  | wrote =>
    simp only [State.posterStep, hp, hss, Option.some_inj] at he
    subst he
    exact hrest ⟨g.unlock,flag,rfl⟩ rfl rfl rfl trivial rfl h.queued

theorem Serving.step (h : Serving s) (hp : ∀ g flag, s.ss = .physical g flag → SelfPipe g s.posters) {a : Action ι}
    (ha : Serves s a) (he : s.step a = some t) : Serving t := by
  have hgoto {pc : LoopPc} (hpc : pc.Serving) : Serving (s.goto pc) := ⟨h.physical,h.stop,h.queued,h.posters,.inr hpc⟩
  cases a with
  | tick n =>
    cases he
    exact ⟨h.physical,h.stop,h.queued,h.posters,h.loop⟩
  | post i r =>
    obtain ⟨-,he⟩ := Option.ite_none_right_eq_some.mp he
    cases he
    refine ⟨h.physical,h.stop,h.queued,callable_update h.posters ?_,h.loop⟩
    cases r <;> exact ha
  | poster i => exact h.posterStep he
  | processMessages cms =>
    have hcms : cms.toInt = kForever := ha
    simp only [State.step] at he
    split at he
    · cases he
      exact hgoto ⟨hcms,hcms⟩
    · cases he
  | loop =>
    obtain ⟨g,flag,hss⟩ := h.physical
    rcases h.loop with hl | hl
    · simp [State.step, State.loopStep, hl] at he
    · have hadv := advances_loop hss hl h.stop h.queued (hp g flag hss) he
      exact ⟨hadv.physical,hadv.stop.trans h.stop,fun x hx => h.queued x (hadv.queued x hx),hadv.posters ▸ h.posters,
        .inr hadv.loop⟩
  | epollWait answer =>
    simp only [State.step, State.epollWait] at he
    split at he
    · rename_i w hl
      have hw : w.get.Endless := by simpa [hl, LoopPc.Serving] using h.loop
      cases answer with
      | failed interrupted =>
        cases interrupted with
        | false => exact absurd rfl ha
        | true =>
          cases he
          exact hgoto hw
      | timedOut =>
        obtain ⟨-,he⟩ := Option.ite_none_right_eq_some.mp he
        cases he
        exact hgoto ⟨hw,rfl⟩
      | ready signaler =>
        cases he
        exact hgoto hw
    · cases he
  | eventWait timedOut =>
    simp only [State.step, State.eventWait] at he
    split at he
    · rename_i f d hl
      rcases h.loop with hs | hs <;> simp [hl, LoopPc.Serving] at hs
    · cases he
  | join =>
    obtain ⟨-,he⟩ := Option.ite_none_right_eq_some.mp he
    cases he
    exact ⟨h.physical,h.stop,h.queued,h.posters,h.loop⟩
  | quit | stop | exit => exact ha.elim

/-- What is known of a serving thread, from the accounts of its pipe and of its queues. -/
structure ServiceInvariant (s : State ι) : Prop where
  serving : Serving s
  wake : WakeInvariant s
  order : OrderInvariant s

theorem ServiceInvariant.step (h : ServiceInvariant s) {a : Action ι} (ha : Serves s a) (he : s.step a = some t) :
    ServiceInvariant t :=
  ⟨h.serving.step h.wake.pipe ha he,h.wake.of_turn (step_turn he),h.order.of_turn (step_turn he)⟩

variable (ι) in
/-- A Thread over a PhysicalSocketServer. -/
def epollMachine : Machine (State ι) (Action ι) where
  init s := ∃ nanos, s = .start (.physical .fresh false) nanos
  step := State.step

theorem init_epoll (nanos : ℕ) : (epollMachine ι).init (.start (.physical .fresh false) nanos) := ⟨nanos,rfl⟩

omit [DecidableEq ι] in
private theorem fresh_selfPipe : SelfPipe (Signaler.fresh : Signaler ι) fun _ => .idle :=
  ⟨fun i => by simp [PosterPc.Locking, Signaler.fresh],fun _ => rfl,by simp [Signaler.fresh]⟩

private theorem start_service (nanos : ℕ) : ServiceInvariant (.start (.physical .fresh false) nanos : State ι) where
  serving :=
    { physical := ⟨_,_,rfl⟩
      stop := rfl
      queued := by simp [State.start, TaskQueue.empty, TaskQueue.pending, PriorityQueue.empty]
      posters := fun _ => trivial
      loop := .inl rfl }
  wake := ⟨fun g flag hg => by cases hg; exact fresh_selfPipe,fun f hf => by cases hf⟩
  order := (orderInvariant ⟨_,init_start nanos,.refl⟩).1

theorem serviceInvariant (h : (epollMachine ι).Reachable Serves s) : ServiceInvariant s := by
  refine h.rule ?_ fun u a v hu ha he => hu.step ha he
  rintro u ⟨nanos,rfl⟩
  exact start_service nanos

/-- What the loop thread and the posts under way have before them. -/
def State.work [Fintype ι] (s : State ι) : ℕ := s.load + 10 * ∑ i, (s.posters i).tokens

/-- A step of a post that uses up more of its own steps than it stores in wake-ups. -/
theorem work_lt_of_poster [Fintype ι] {i : ι} {pc : PosterPc} (hp : t.posters = Function.update s.posters i pc)
    (hl : t.loop = s.loop) (hq : t.queue = s.queue) (hw : pc.tokens + t.ss.tokens < (s.posters i).tokens + s.ss.tokens) :
    t.work < s.work := by
  have hsum := sum_update PosterPc.tokens s.posters i pc
  have hrank := s.loop.rank_le t.ss
  simp only [State.work, State.load, hp, hl, hq]
  omega

theorem poster_goes_on [Fintype ι] {i : ι} (hi : (s.posters i).Waking ∨ (s.posters i).Locking)
    (he : s.posterStep i = some t) : t.work < s.work := by
  cases hp : s.posters i with
  | wakeUp =>
    cases hss : s.ss with
    | null e =>
      simp only [State.posterStep, hp, hss, Option.some_inj] at he
      subst he
      refine work_lt_of_poster rfl rfl rfl ?_
      simp only [hp, PosterPc.tokens, SocketServer.tokens, if_true]
      omega
    | physical g flag =>
      simp only [State.posterStep, hp, hss, Option.ite_none_right_eq_some] at he
      obtain ⟨-,he⟩ := he
      split at he
      · cases he
        exact work_lt_of_poster rfl rfl rfl (by simp [hp, hss, PosterPc.tokens, State.setPoster])
      · cases he
        exact work_lt_of_poster rfl rfl rfl (by simp [hp, hss, PosterPc.tokens, SocketServer.tokens])
  | signaling =>
    cases hss : s.ss with
    | null e => simp [State.posterStep, hp, hss] at he
    | physical g flag =>
      simp only [State.posterStep, hp, hss, Option.map_eq_some_iff, Signaler.write, Option.ite_none_right_eq_some,
        Option.some_inj] at he
      obtain ⟨g',⟨-,rfl⟩,rfl⟩ := he
      refine work_lt_of_poster rfl rfl rfl ?_
      simp only [hp, hss, PosterPc.tokens, SocketServer.tokens]
      omega
  | wrote =>
    cases hss : s.ss with
    | null e => simp [State.posterStep, hp, hss] at he
    | physical g flag =>
      simp only [State.posterStep, hp, hss, Option.some_inj] at he
      subst he
      exact work_lt_of_poster rfl rfl rfl (by simp [hp, hss, PosterPc.tokens, SocketServer.tokens, Signaler.unlock])
  | _ => simp [hp, PosterPc.Waking, PosterPc.Locking] at hi

/-- A step of a thread left to itself leaves less before it, and the loop thread in ProcessMessages. -/
theorem goes_on [Fintype ι] (h : ServiceInvariant s) (hl : s.loop.Serving) {a : Action ι} (ha : GoesOn s a)
    (he : s.step a = some t) : t.loop.Serving ∧ t.work < s.work := by
  cases a with
  | loop =>
    obtain ⟨g,flag,hss⟩ := h.serving.physical
    have hadv := advances_loop hss hl h.serving.stop h.serving.queued (h.wake.pipe g flag hss) he
    refine ⟨hadv.loop,?_⟩
    simp only [State.work, hadv.posters]
    exact Nat.add_lt_add_right hadv.load _
  | poster i =>
    obtain ⟨hloop,-⟩ := posterStep_loop he
    exact ⟨hloop ▸ hl,poster_goes_on ha he⟩
  | epollWait answer =>
    obtain ⟨rfl,hpend⟩ := ha
    rw [SocketServer.wakeUpPending_iff] at hpend
    simp only [State.step, State.epollWait] at he
    split at he
    · rename_i w hpc
      cases he
      rw [hpc] at hl
      have hne : s.ss.tokens ≠ 0 := hpend.ne'
      refine ⟨hl,?_⟩
      simp only [State.work, State.load, State.goto, hpc, LoopPc.rank, hne, if_false]
      omega
    · cases he
  | _ => exact ha.elim

/-- The post that has the signaler's mutex can go on: its write finds the pipe empty. -/
theorem holder_enabled {g : Signaler ι} {flag : Bool} (hss : s.ss = .physical g flag) (h : SelfPipe g s.posters) {i : ι}
    (hi : (s.posters i).Locking) : (s.posterStep i).isSome = true := by
  rcases hi with hi | hi
  · have hbyte := (h.held i ((h.holder i).mp (.inl hi))).2
    rw [hi, if_neg (by decide)] at hbyte
    simp [State.posterStep, hi, hss, Signaler.write, hbyte, pipeCapacity]
  · simp [State.posterStep, hi, hss]

/-- A post on its way to a wake-up can go on, or waits for one that can. -/
theorem poster_enabled (h : ServiceInvariant s) {i : ι} (hi : (s.posters i).Waking) :
    ∃ j, ((s.posters j).Waking ∨ (s.posters j).Locking) ∧ (s.posterStep j).isSome = true := by
  obtain ⟨g,flag,hss⟩ := h.serving.physical
  have hpipe := h.wake.pipe g flag hss
  rcases hi with hi | hi
  · cases hn : g.holder with
    | none =>
      refine ⟨i,.inl (.inl hi),?_⟩
      simp only [State.posterStep, hi, hss, hn, if_true]
      split <;> rfl
    | some j =>
      have hj := (hpipe.holder j).mpr hn
      exact ⟨j,.inr hj,holder_enabled hss hpipe hj⟩
  · exact ⟨i,.inl (.inr hi),holder_enabled hss hpipe (.inl hi)⟩

/-- A serving thread goes on, or a post under way does, unless the loop thread waits and no wake-up is stored. -/
theorem goes_on_or_waits (h : ServiceInvariant s) (hl : s.loop.Serving) :
    (∃ a, GoesOn s a ∧ (s.step a).isSome = true) ∨
      ∃ f, s.loop.blocking s.ss.flagWait = some f ∧ ¬ s.ss.WakeUpPending := by
  obtain ⟨g,flag,hss⟩ := h.serving.physical
  have hpipe := h.wake.pipe g flag hss
  have hloop (he : (s.loopStep).isSome = true) : ∃ a, GoesOn s a ∧ (s.step a).isSome = true := ⟨.loop,trivial,he⟩
  cases hpc : s.loop with
  | outside r | park f d | parked f d | exited =>
    rw [hpc] at hl
    exact hl.elim
  | epoll w =>
    by_cases hpend : s.ss.WakeUpPending
    · exact .inl ⟨.epollWait (.ready true),⟨rfl,hpend⟩,by simp [State.step, State.epollWait, hpc]⟩
    · exact .inr ⟨w.get,rfl,hpend⟩
  | wait f d => exact .inl (hloop (by simp [State.loopStep, hpc, hss]))
  | dispatch w signaler =>
    cases signaler with
    | false => exact .inl (hloop (by simp [State.loopStep, hpc]))
    | true =>
      cases hn : g.holder with
      | none =>
        have hbyte := hpipe.free hn
        refine .inl (hloop ?_)
        cases hf : g.fSignaled <;> simp [State.loopStep, hpc, hss, Signaler.onEvent, hn, hf, hbyte]
      | some j =>
        have hj := (hpipe.holder j).mpr hn
        exact .inl ⟨.poster j,.inr hj,holder_enabled hss hpipe hj⟩
  | _ => exact .inl (hloop (by simp [State.loopStep, hpc]))

/-- Where nothing goes on, the loop thread waits and messages_ is empty. -/
theorem at_rest (h : ServiceInvariant s) (hl : s.loop.Serving) (hrest : ∀ a, GoesOn s a → s.step a = none) :
    (s.loop.blocking s.ss.flagWait).isSome = true ∧ s.queue.messages = [] := by
  have hnone : ¬ ∃ a, GoesOn s a ∧ (s.step a).isSome = true := by
    rintro ⟨a,ha,he⟩
    rw [hrest a ha] at he
    cases he
  obtain ⟨f,hf,hpend⟩ := (goes_on_or_waits h hl).resolve_left hnone
  refine ⟨by rw [hf]; rfl,?_⟩
  rcases h.wake.covered f (LoopPc.watching_of_inWait (LoopPc.inWait_of_blocking hf)) with hq | hp | ⟨i,hi⟩
  · exact hq.1
  · exact absurd hp hpend
  · obtain ⟨j,hj,he⟩ := poster_enabled h hi
    exact absurd ⟨.poster j,hj,he⟩ hnone

end

/-- The loop thread is in epoll_wait, with the pipe empty and no post under way. -/
private def resting (t : State (Fin 2)) : Bool :=
  match t.ss, t.loop with
  | .physical g _, .epoll _ => decide (g.pipe = 0 ∧ ∀ i, t.posters i = .idle)
  | _, _ => false

private theorem stops_of_resting {t : State (Fin 2)} (h : resting t = true) (a : Action (Fin 2)) (ha : GoesOn t a) :
    t.step a = none := by
  unfold resting at h
  split at h
  · rename_i g flag w hss hl
    obtain ⟨hpipe,hidle⟩ := of_decide_eq_true h
    have hpend : ¬ t.ss.WakeUpPending := by simp [hss, SocketServer.WakeUpPending, hpipe]
    cases a with
    | loop => simp [State.step, State.loopStep, hl]
    | poster i => simp [GoesOn, hidle i, PosterPc.Waking, PosterPc.Locking] at ha
    | epollWait answer => exact absurd ha.2 hpend
    | _ => exact ha.elim
  · cases h

end UServer.Concurrency
