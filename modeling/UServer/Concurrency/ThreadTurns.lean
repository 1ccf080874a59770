import UServer.Concurrency.Thread

/-! What one step of the machine can do, said once, and the frames of Get that a wait belongs to. -/
namespace UServer.Concurrency
open Library

namespace LoopPc

/-- The Get whose Wait the loop thread is blocked in or about to enter, without a look at the queue
or at stop_ in between. -/
def blocking (flagWait : Bool) : LoopPc → Option GetFrame
  | .wait f _ => some f
  | .test w => if flagWait then some w.get else none
  | .epoll w => some w.get
  | .park f _ | .parked f _ => some f
  | _ => none

/-- The Get whose Wait the loop thread is in or about to enter and will not leave for a signal already used. -/
def inWait (flagWait : Bool) : LoopPc → Option GetFrame
  | .dispatch w false | .elapse w => if flagWait then some w.get else none
  | pc => pc.blocking flagWait

theorem inWait_of_blocking {flagWait : Bool} {pc : LoopPc} {f : GetFrame} (h : pc.blocking flagWait = some f) :
    pc.inWait flagWait = some f := by
  cases pc with
  | dispatch w signaler => cases h
  | elapse w => cases h
  | _ => exact h

end LoopPc

/-- The moves of the loop thread that change no shared data. -/
inductive LoopMove {ι : Type*} (s : State ι) : LoopPc → Prop
  | processMessages {r : Option Bool} {p : ProcessFrame} {cms : ℤ} (h : s.loop = .outside r) : LoopMove s (.call p cms)
  | call {p : ProcessFrame} {cms : ℤ} (h : s.loop = .call p cms) :
      LoopMove s (.take ⟨p,cms,s.timeMillis,s.timeMillis,0,[]⟩)
  | quitting {f : GetFrame} {next : ℤ} (h : s.loop = .check f next) (hs : s.stop = true) : LoopMove s (.got f.process none)
  | wait {f : GetFrame} {next : ℤ} (h : s.loop = .check f next) (hs : s.stop = false) :
      LoopMove s (.wait f (f.cmsNext next))
  | park {f : GetFrame} {d : ℤ} {e : Bool} (h : s.loop = .wait f d) (hn : s.ss = .null e) : LoopMove s (.park f d)
  | parked {f : GetFrame} {d : ℤ} (h : s.loop = .park f d) (hn : s.ss = .null false) (hv : (Timespec.ofMillis d).Valid) :
      LoopMove s (.parked f d)
  | rejected {f : GetFrame} {d : ℤ} (h : s.loop = .park f d) (hn : s.ss = .null false)
      (hv : ¬ (Timespec.ofMillis d).Valid) : LoopMove s (.waited f true)
  | unpark {f : GetFrame} {d : ℤ} (h : s.loop = .parked f d) : LoopMove s (.park f d)
  | gaveUp {f : GetFrame} {d : ℤ} (h : s.loop = .parked f d) : LoopMove s (.waited f true)
  | test {w : EpollFrame} (h : s.loop = .test w) (hf : s.ss.flagWait = true) : LoopMove s (.epoll w)
  | leave {w : EpollFrame} (h : s.loop = .test w) (hf : s.ss.flagWait = false) : LoopMove s (.waited w.get true)
  | interrupted {w : EpollFrame} (h : s.loop = .epoll w) : LoopMove s (.elapse w)
  | answered {w : EpollFrame} {result : Bool} (h : s.loop = .epoll w) : LoopMove s (.waited w.get result)
  | ready {w : EpollFrame} {signaler : Bool} (h : s.loop = .epoll w) : LoopMove s (.dispatch w signaler)
  | dispatched {w : EpollFrame} (h : s.loop = .dispatch w false) : LoopMove s (.elapse w)
  | elapsed {w : EpollFrame} (h : s.loop = .elapse w) : LoopMove s (.waited w.get true)
  | again {w : EpollFrame} {msWait : ℤ} (h : s.loop = .elapse w) : LoopMove s (.test { w with msWait })
  | returnEmpty {f : GetFrame} {result : Bool} (h : s.loop = .waited f result) : LoopMove s (.got f.process none)
  | lookAgain {f : GetFrame} (h : s.loop = .waited f true) :
      LoopMove s (.take { f with msCurrent := s.timeMillis, cmsElapsed := timeDiff s.timeMillis f.msStart })
  | run {p : ProcessFrame} {t : Task} (h : s.loop = .got p (some t)) : LoopMove s (.run p t)
  | finish {p : ProcessFrame} {task : Option Task} (h : s.loop = .got p task) : LoopMove s (.outside (some !s.stop))
  | next {p : ProcessFrame} {t : Task} {cms : ℤ} (h : s.loop = .run p t) : LoopMove s (.call p cms)
  | spent {p : ProcessFrame} {t : Task} (h : s.loop = .run p t) : LoopMove s (.outside (some true))
  | exit {r : Option Bool} (h : s.loop = .outside r) : LoopMove s .exited

/-- Where the loop thread is after a step that is not its own: a call from outside, an answer of epoll_wait or of
pthread_cond_timedwait, or a step of another thread. -/
inductive Aside {ι : Type*} (s : State ι) : LoopPc → Prop
  | stay : Aside s s.loop
  | enter {r : Option Bool} (h : s.loop = .outside r) (cms : Int32) (msEnd : ℤ) : Aside s (.call ⟨cms.toInt,msEnd⟩ cms.toInt)
  | interrupted {w : EpollFrame} (h : s.loop = .epoll w) : Aside s (.elapse w)
  | answered {w : EpollFrame} (h : s.loop = .epoll w) (result : Bool) : Aside s (.waited w.get result)
  | ready {w : EpollFrame} (h : s.loop = .epoll w) (signaler : Bool) : Aside s (.dispatch w signaler)
  | unpark {f : GetFrame} {d : ℤ} (h : s.loop = .parked f d) : Aside s (.park f d)
  | gaveUp {f : GetFrame} {d : ℤ} (h : s.loop = .parked f d) : Aside s (.waited f true)
  | exit {r : Option Bool} (h : s.loop = .outside r) : Aside s .exited

/-- An answer of epoll_wait moves the loop thread, and nothing else. -/
private theorem epollWait_moves {ι : Type*} {s t : State ι} {answer : EpollAnswer} (h : s.epollWait answer = some t) :
    ∃ pc, Aside s pc ∧ LoopMove s pc ∧ t = s.goto pc := by
  rw [State.epollWait] at h
  split at h
  · rename_i w hl
    cases answer with
    | failed interrupted =>
      cases interrupted with
      | true => exact ⟨_,.interrupted hl,.interrupted hl,(Option.some_inj.mp h).symm⟩
      | false => exact ⟨_,.answered hl false,.answered hl,(Option.some_inj.mp h).symm⟩
    | timedOut =>
      obtain ⟨-,h⟩ := Option.ite_none_right_eq_some.mp h
      exact ⟨_,.answered hl true,.answered hl,(Option.some_inj.mp h).symm⟩
    | ready signaler => exact ⟨_,.ready hl signaler,.ready hl,(Option.some_inj.mp h).symm⟩
  · cases h

/-- So does an answer of pthread_cond_timedwait. -/
private theorem eventWait_moves {ι : Type*} {s t : State ι} {timedOut : Bool} (h : s.eventWait timedOut = some t) :
    ∃ pc, Aside s pc ∧ LoopMove s pc ∧ t = s.goto pc := by
  rw [State.eventWait] at h
  split at h
  · rename_i f d hl
    cases timedOut with
    | true => exact ⟨_,.gaveUp hl,.gaveUp hl,(Option.some_inj.mp h).symm⟩
    | false => exact ⟨_,.unpark hl,.unpark hl,(Option.some_inj.mp h).symm⟩
  · cases h

/-- Between WakeUp and the write of Signal a poster is about to wake the loop thread. -/
def PosterPc.Waking (pc : PosterPc) : Prop := pc = .wakeUp ∨ pc = .signaling

/-- Inside Signal, with mutex_ held. -/
def PosterPc.Locking (pc : PosterPc) : Prop := pc = .signaling ∨ pc = .wrote

/-- Neither about to wake the loop thread nor inside Signal. -/
def PosterPc.Quiet (pc : PosterPc) : Prop := ¬ pc.Waking ∧ ¬ pc.Locking

section
variable {ι : Type*} [DecidableEq ι]

inductive Turn (s : State ι) : Action ι → State ι → Prop
  | tick (n : ℕ) : Turn s (.tick n) { s with nanos := s.nanos + n }
  | move {a : Action ι} {pc : LoopPc} (h : LoopMove s pc) : Turn s a (s.goto pc)
  | give {f : GetFrame} {t : Task} {rest : List Task} (h : s.loop = .take f)
      (hm : (s.queue.processDelayedMessage f.msCurrent).2.messages = t :: rest) :
      Turn s .loop { s with
        queue := { (s.queue.processDelayedMessage f.msCurrent).2 with messages := rest }
        returned := s.returned ++ [t]
        loop := .got f.process (some t) }
  | look {f : GetFrame} (h : s.loop = .take f) (hm : (s.queue.processDelayedMessage f.msCurrent).2.messages = []) :
      Turn s .loop { s with
        queue := (s.queue.processDelayedMessage f.msCurrent).2
        loop := .check { f with seen := (s.queue.processDelayedMessage f.msCurrent).2.delayed.items }
          (s.queue.processDelayedMessage f.msCurrent).1 }
  | enter {f : GetFrame} {d : ℤ} {g : Signaler ι} {flag : Bool} (h : s.loop = .wait f d) (hs : s.ss = .physical g flag) :
      Turn s .loop { s with ss := .physical g true, loop := .test (f.waitEpoll d s.timeMillis) }
  | onEvent {w : EpollFrame} {g g' : Signaler ι} {flag : Bool} (h : s.loop = .dispatch w true)
      (hs : s.ss = .physical g flag) (hg : g.onEvent = some g') :
      Turn s .loop { s with ss := .physical g' false, loop := .elapse w }
  | reset {f : GetFrame} {d : ℤ} (h : s.loop = .park f d) (hs : s.ss = .null true) :
      Turn s .loop { s with ss := .null false, loop := .waited f true }
  | pace {a : Action ι} {i : ι} {pc : PosterPc} (h : (s.posters i).Quiet) (hpc : pc.Quiet) : Turn s a (s.setPoster i pc)
  | refuse {i : ι} {r : Request} (h : s.posters i = .started r) (hs : s.stop = true) :
      Turn s (.poster i) { s.setPoster i .idle with refused := s.refused + 1 }
  | push {i : ι} {callable : Bool} {delay : Option (ℤ × ℤ)} (h : s.posters i = .push callable delay) :
      Turn s (.poster i) ((s.push callable delay).setPoster i .wakeUp)
  | set {i : ι} {event : Bool} (h : s.posters i = .wakeUp) (hs : s.ss = .null event) :
      Turn s (.poster i) { s.setPoster i .idle with ss := .null true }
  | coalesce {i : ι} {g : Signaler ι} {flag : Bool} (h : s.posters i = .wakeUp) (hs : s.ss = .physical g flag)
      (hn : g.holder = none) (hg : g.fSignaled = true) : Turn s (.poster i) (s.setPoster i .idle)
  | lock {i : ι} {g : Signaler ι} {flag : Bool} (h : s.posters i = .wakeUp) (hs : s.ss = .physical g flag)
      (hn : g.holder = none) (hg : g.fSignaled = false) :
      Turn s (.poster i) { s.setPoster i .signaling with ss := .physical { g with holder := some i } flag }
  | write {i : ι} {g : Signaler ι} {flag : Bool} (h : s.posters i = .signaling) (hs : s.ss = .physical g flag) :
      Turn s (.poster i) { s.setPoster i .wrote with ss := .physical { g with pipe := g.pipe + 1 } flag }
  | unlock {i : ι} {g : Signaler ι} {flag : Bool} (h : s.posters i = .wrote) (hs : s.ss = .physical g flag) :
      Turn s (.poster i) { s.setPoster i .idle with ss := .physical g.unlock flag }
  | quit : Turn s .quit { s with stop := true }
  | stop : Turn s .stop { s with stop := true, joining := true }
  | join (h : s.loop = .exited) : Turn s .join { s with joining := false }

private theorem move_elapse {s : State ι} {w : EpollFrame} {a : Action ι} (h : s.loop = .elapse w) (micros : ℤ) :
    Turn s a (s.goto (w.elapse micros)) := by
  unfold EpollFrame.elapse
  split
  · split
    · exact .move (.elapsed h)
    · exact .move (.again h)
  · exact .move (.again h)

private theorem move_waited {s : State ι} {f : GetFrame} {result : Bool} {a : Action ι} (h : s.loop = .waited f result) :
    Turn s a (s.goto (f.waited s.timeMillis result)) := by
  unfold GetFrame.waited
  split
  · exact .move (.returnEmpty h)
  · split
    · exact .move (.returnEmpty h)
    · rename_i hr _
      rw [Bool.not_eq_false] at hr
      subst hr
      exact .move (.lookAgain h)

private theorem move_got {s : State ι} {p : ProcessFrame} {task : Option Task} {a : Action ι} (h : s.loop = .got p task) :
    Turn s a (s.goto (p.got s.stop task)) := by
  cases task with
  | none => exact .move (.finish h)
  | some t =>
    unfold ProcessFrame.got
    dsimp only
    split
    · exact .move (.run h)
    · exact .move (.finish h)

private theorem move_next {s : State ι} {p : ProcessFrame} {t : Task} {a : Action ι} (h : s.loop = .run p t) (now : ℤ) :
    Turn s a (s.goto (p.next now)) := by
  unfold ProcessFrame.next
  split
  · split
    · exact .move (.spent h)
    · exact .move (.next h)
  · exact .move (.next h)

private theorem take_turn {s : State ι} {f : GetFrame} (h : s.loop = .take f) : Turn s .loop (s.take f) := by
  unfold State.take
  dsimp only
  split
  · rename_i hm
    exact .give h hm
  · rename_i hm
    exact .look h hm

private theorem loopStep_turn {s t : State ι} (h : s.loopStep = some t) : Turn s .loop t := by
  cases hl : s.loop with
  | call p cms =>
    simp only [State.loopStep, hl, Option.some_inj] at h
    exact h ▸ .move (.call hl)
  | take f =>
    simp only [State.loopStep, hl, Option.some_inj] at h
    exact h ▸ take_turn hl
  | check f next =>
    simp only [State.loopStep, hl, Option.some_inj] at h
    subst h
    split
    · rename_i hs
      exact .move (.quitting hl hs)
    · rename_i hs
      exact .move (.wait hl (by simpa using hs))
  | wait f d =>
    cases hss : s.ss with
    | physical g flag =>
      simp only [State.loopStep, hl, hss, Option.some_inj] at h
      exact h ▸ .enter hl hss
    | null e =>
      simp only [State.loopStep, hl, hss, Option.some_inj] at h
      exact h ▸ .move (.park hl hss)
  | test w =>
    simp only [State.loopStep, hl, Option.some_inj] at h
    subst h
    split
    · rename_i hf
      exact .move (.test hl hf)
    · rename_i hf
      exact .move (.leave hl (by simpa using hf))
  | dispatch w signaler =>
    cases signaler with
    | false =>
      simp only [State.loopStep, hl, Option.some_inj] at h
      exact h ▸ .move (.dispatched hl)
    | true =>
      cases hss : s.ss with
      | physical g flag =>
        simp only [State.loopStep, hl, hss, Option.map_eq_some_iff] at h
        obtain ⟨g',hg,rfl⟩ := h
        exact .onEvent hl hss hg
      | null e => simp [State.loopStep, hl, hss] at h
  | elapse w =>
    simp only [State.loopStep, hl, Option.some_inj] at h
    exact h ▸ move_elapse hl _
  | park f d =>
    cases hss : s.ss with
    | physical g flag => simp [State.loopStep, hl, hss] at h
    | null e =>
      cases e with
      | true =>
        simp only [State.loopStep, hl, hss, Option.some_inj] at h
        exact h ▸ .reset hl hss
      | false =>
        simp only [State.loopStep, hl, hss, Option.some_inj] at h
        subst h
        split
        · rename_i hv
          exact .move (.parked hl hss hv)
        · rename_i hv
          exact .move (.rejected hl hss hv)
  | waited f result =>
    simp only [State.loopStep, hl, Option.some_inj] at h
    exact h ▸ move_waited hl
  | got p task =>
    simp only [State.loopStep, hl, Option.some_inj] at h
    exact h ▸ move_got hl
  | run p task =>
    simp only [State.loopStep, hl, Option.some_inj] at h
    exact h ▸ move_next hl _
  | outside r => simp [State.loopStep, hl] at h
  | epoll w => simp [State.loopStep, hl] at h
  | parked f d => simp [State.loopStep, hl] at h
  | exited => simp [State.loopStep, hl] at h

private theorem Request.admitted_quiet (r : Request) : r.admitted.Quiet := by
  cases r <;> simp [Request.admitted, PosterPc.Quiet, PosterPc.Waking, PosterPc.Locking]

private theorem posterStep_turn {s t : State ι} {i : ι} (h : s.posterStep i = some t) : Turn s (.poster i) t := by
  cases hp : s.posters i with
  | idle => simp [State.posterStep, hp] at h
  | started r =>
    simp only [State.posterStep, hp, Option.some_inj] at h
    subst h
    split
    · rename_i hs
      exact .refuse hp hs
    · exact .pace (by simp [hp, PosterPc.Quiet, PosterPc.Waking, PosterPc.Locking]) r.admitted_quiet
  | timing callable delayMs =>
    simp only [State.posterStep, hp, Option.some_inj] at h
    subst h
    exact .pace (by simp [hp, PosterPc.Quiet, PosterPc.Waking, PosterPc.Locking])
      (by simp [PosterPc.Quiet, PosterPc.Waking, PosterPc.Locking])
  | push callable delay =>
    simp only [State.posterStep, hp, Option.some_inj] at h
    exact h ▸ .push hp
  | wakeUp =>
    cases hss : s.ss with
    | null e =>
      simp only [State.posterStep, hp, hss, Option.some_inj] at h
      exact h ▸ .set hp hss
    | physical g flag =>
      simp only [State.posterStep, hp, hss, Option.ite_none_right_eq_some] at h
      obtain ⟨hn,h⟩ := h
      split at h
      · rename_i hg
        exact Option.some_inj.mp h ▸ .coalesce hp hss hn hg
      · rename_i hg
        exact Option.some_inj.mp h ▸ .lock hp hss hn (by simpa using hg)
  | signaling =>
    cases hss : s.ss with
    | null e => simp [State.posterStep, hp, hss] at h
    | physical g flag =>
      simp only [State.posterStep, hp, hss, Option.map_eq_some_iff, Signaler.write, Option.ite_none_right_eq_some,
        Option.some_inj] at h
      obtain ⟨g',⟨-,rfl⟩,rfl⟩ := h
      exact .write hp hss
  | wrote =>
    cases hss : s.ss with
    | null e => simp [State.posterStep, hp, hss] at h
    | physical g flag =>
      simp only [State.posterStep, hp, hss, Option.some_inj] at h
      exact h ▸ .unlock hp hss

/-- Every step of the machine is one of the turns. -/
theorem step_turn {s t : State ι} {a : Action ι} (h : s.step a = some t) : Turn s a t := by
  cases a with
  | tick n => exact Option.some_inj.mp h ▸ .tick n
  | post i r =>
    simp only [State.step, Option.ite_none_right_eq_some, Option.some_inj] at h
    obtain ⟨hi,rfl⟩ := h
    exact .pace (by simp [hi, PosterPc.Quiet, PosterPc.Waking, PosterPc.Locking])
      (by simp [PosterPc.Quiet, PosterPc.Waking, PosterPc.Locking])
  | poster i => exact posterStep_turn h
  | processMessages cms =>
    simp only [State.step] at h
    split at h
    · rename_i r hl
      exact Option.some_inj.mp h ▸ .move (.processMessages hl)
    · cases h
  | loop => exact loopStep_turn h
  | epollWait answer =>
    obtain ⟨pc,-,hm,rfl⟩ := epollWait_moves h
    exact .move hm
  | eventWait timedOut =>
    obtain ⟨pc,-,hm,rfl⟩ := eventWait_moves h
    exact .move hm
  | exit =>
    simp only [State.step] at h
    split at h
    · rename_i r hl
      exact Option.some_inj.mp h ▸ .move (.exit hl)
    · cases h
  | quit => exact Option.some_inj.mp h ▸ .quit
  | stop => exact Option.some_inj.mp h ▸ .stop
  | join =>
    simp only [State.step, Option.ite_none_right_eq_some, Option.some_inj] at h
    obtain ⟨⟨-,hl⟩,rfl⟩ := h
    exact .join hl

/-- A posting thread leaves the loop thread where it is. -/
theorem posterStep_loop {s t : State ι} {i : ι} (h : s.posterStep i = some t) : t.loop = s.loop ∧ t.returned = s.returned := by
  have hset : ∀ pc, (s.setPoster i pc).loop = s.loop ∧ (s.setPoster i pc).returned = s.returned := fun _ => ⟨rfl,rfl⟩
  rw [State.posterStep] at h
  split at h
  · cases h
  · cases h
    split
    · exact ⟨rfl,rfl⟩
    · exact hset _
  · cases h
    exact hset _
  · cases h
    exact ⟨rfl,rfl⟩
  · split at h
    · cases h
      exact ⟨rfl,rfl⟩
    · obtain ⟨-,h⟩ := Option.ite_none_right_eq_some.mp h
      split at h
      · cases h
        exact hset _
      · cases h
        exact ⟨rfl,rfl⟩
  · split at h
    · cases h
    · obtain ⟨g,-,rfl⟩ := Option.map_eq_some_iff.mp h
      exact ⟨rfl,rfl⟩
  · split at h
    · cases h
    · cases h
      exact ⟨rfl,rfl⟩

/-- Only steps of its own take the loop thread through Get and ProcessMessages. -/
theorem step_aside {s t : State ι} {a : Action ι} (ha : a ≠ .loop) (h : s.step a = some t) :
    Aside s t.loop ∧ t.returned = s.returned := by
  cases a with
  | loop => exact absurd rfl ha
  | tick n | quit | stop => exact Option.some_inj.mp h ▸ ⟨.stay,rfl⟩
  | post i r | join =>
    obtain ⟨-,h⟩ := Option.ite_none_right_eq_some.mp h
    exact Option.some_inj.mp h ▸ ⟨.stay,rfl⟩
  | poster i =>
    obtain ⟨hl,hr⟩ := posterStep_loop h
    exact ⟨hl ▸ .stay,hr⟩
  | epollWait answer =>
    obtain ⟨pc,ha,-,rfl⟩ := epollWait_moves h
    exact ⟨ha,rfl⟩
  | eventWait timedOut =>
    obtain ⟨pc,ha,-,rfl⟩ := eventWait_moves h
    exact ⟨ha,rfl⟩
  | processMessages cms =>
    simp only [State.step] at h
    split at h
    · rename_i r hl
      exact Option.some_inj.mp h ▸ ⟨.enter hl cms _,rfl⟩
    · cases h
  | exit =>
    simp only [State.step] at h
    split at h
    · rename_i r hl
      exact Option.some_inj.mp h ▸ ⟨.exit hl,rfl⟩
    · cases h

end

/-- A move of the loop thread enters a wait only where it has just found that it is not quitting. -/
theorem LoopMove.inWait {ι : Type*} {s : State ι} {pc : LoopPc} {f : GetFrame} (h : LoopMove s pc)
    (hf : pc.inWait s.ss.flagWait = some f) :
    s.loop.inWait s.ss.flagWait = some f ∨ (∃ next, s.loop = .check f next) ∧ s.stop = false := by
  cases h with
  | wait h hs =>
    cases hf
    exact .inr ⟨⟨_,h⟩,hs⟩
  | park h | unpark h | parked h | again h =>
    rw [h]
    exact .inl hf
  | test h hflag =>
    rw [h]
    cases hf
    exact .inl (if_pos hflag)
  | @ready w signaler h =>
    rw [h]
    cases signaler with
    | true => cases hf
    | false =>
      simp only [LoopPc.inWait, Option.ite_none_right_eq_some] at hf
      exact .inl hf.2
  | interrupted h | dispatched h =>
    rw [h]
    simp only [LoopPc.inWait, Option.ite_none_right_eq_some] at hf
    simp [LoopPc.inWait, LoopPc.blocking, hf]
  | _ => cases hf

end UServer.Concurrency
