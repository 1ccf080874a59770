import UServer.Concurrency.GetCalls

/-! WaitEpoll and WaitPollOneDispatcher against a clock in nanoseconds: their deadline is in milliseconds and what they
compare it with in microseconds, so a wait that goes round its loop is right only within the first microsecond. -/
namespace UServer.Concurrency
open Library

def timeMillis (nanos : ℕ) : ℤ := nanos / 1000000

def timeMicros (nanos : ℕ) : ℤ := nanos / 1000

/-- The locals that WaitEpoll and WaitPollOneDispatcher have in common. -/
structure WaitFrame where
  cmsWait : ℤ
  msWait : ℤ
  msStop : ℤ
  deriving DecidableEq

theorem finite_ne_forever {cmsWait : ℤ} (hc : 0 ≤ cmsWait) : cmsWait ≠ kForever := by
  rw [kForever]
  omega

inductive WaitFunction
  | waitEpoll
  | waitPollOneDispatcher
  deriving DecidableEq

/-- Up to the loop. -/
def WaitFrame.enter (cmsWait now : ℤ) : WaitFrame :=
  if cmsWait ≠ kForever then ⟨cmsWait,cmsWait,now + cmsWait⟩ else ⟨cmsWait,-1,-1⟩

theorem WaitFrame.enter_finite {cmsWait : ℤ} (hc : 0 ≤ cmsWait) (now : ℤ) :
    WaitFrame.enter cmsWait now = ⟨cmsWait,cmsWait,now + cmsWait⟩ := if_pos (finite_ne_forever hc)

/-- The test of ms_wait that returns true. -/
def WaitFunction.timeIsUp : WaitFunction → ℤ → Bool
  | .waitEpoll, msWait => msWait ≤ 0
  | .waitPollOneDispatcher, msWait => msWait < 0

/-- The end of the loop body; none is return true. -/
def WaitFunction.elapse (f : WaitFunction) (w : WaitFrame) (micros : ℤ) : Option WaitFrame :=
  if w.cmsWait ≠ kForever then
    if f.timeIsUp (timeDiff w.msStop micros) then none else some { w with msWait := timeDiff w.msStop micros }
  else some w

namespace WaitFunction
variable {f : WaitFunction} {w w' : WaitFrame} {micros : ℤ}

theorem elapse_none (hc : w.cmsWait ≠ kForever) (h : f.elapse w micros = none) : timeDiff w.msStop micros ≤ 0 := by
  rw [elapse, if_pos hc] at h
  split at h
  · rename_i ht
    cases f with
    | waitEpoll => exact of_decide_eq_true ht
    | waitPollOneDispatcher => exact (of_decide_eq_true ht).le
  · cases h

theorem elapse_some (hc : w.cmsWait ≠ kForever) (h : f.elapse w micros = some w') :
    w' = { w with msWait := timeDiff w.msStop micros } ∧ 0 ≤ timeDiff w.msStop micros := by
  rw [elapse, if_pos hc] at h
  split at h
  · cases h
  · rename_i ht
    refine ⟨(Option.some_inj.mp h).symm,?_⟩
    cases f with
    | waitEpoll => exact (not_le.mp fun hn => ht (decide_eq_true hn)).le
    | waitPollOneDispatcher => exact not_lt.mp fun hn => ht (decide_eq_true hn)

theorem elapse_keeps (h : f.elapse w micros = some w') : w'.cmsWait = w.cmsWait ∧ w'.msStop = w.msStop := by
  rw [elapse] at h
  split at h
  · split at h
    · cases h
    · cases h
      exact ⟨rfl,rfl⟩
  · cases h
    exact ⟨rfl,rfl⟩

end WaitFunction

namespace EpollFrame

def locals (w : EpollFrame) : WaitFrame := ⟨w.cmsWait,w.msWait,w.msStop⟩

/-- The loop thread of a Thread enters WaitEpoll as modelled here. -/
theorem locals_waitEpoll (f : GetFrame) (d now : ℤ) : (f.waitEpoll d now).locals = .enter (toInt d) now := by
  rw [GetFrame.waitEpoll, cmsWait_eq, WaitFrame.enter, kForever]
  split
  · rfl
  · rfl

/-- The loop thread of a Thread ends the loop body of WaitEpoll as modelled here. -/
theorem elapse_eq (w : EpollFrame) (micros : ℤ) : w.elapse micros =
    match WaitFunction.waitEpoll.elapse w.locals micros with
    | none => .waited w.get true
    | some l => .test { w with msWait := l.msWait } := by
  by_cases hc : w.cmsWait = -1
  · obtain ⟨get,cmsWait,msWait,msStop⟩ := w
    subst hc
    rfl
  · by_cases ht : timeDiff w.msStop micros ≤ 0
    · simp [EpollFrame.elapse, WaitFunction.elapse, locals, kForever, WaitFunction.timeIsUp, hc, ht]
    · simp [EpollFrame.elapse, WaitFunction.elapse, locals, kForever, WaitFunction.timeIsUp, hc, ht]

end EpollFrame

/-- Where the thread is; wait keeps the clock at the call of epoll_wait or poll. -/
inductive WaitPc
  | test
  | wait (since : ℕ)
  | elapse
  | returned (result : Bool)
  deriving DecidableEq

/-- One call, the monotonic clock, and that clock where the call and its last loop body read it. -/
structure TimedWait where
  frame : WaitFrame
  flagWait : Bool
  nanos : ℕ
  entered : ℕ
  read : ℕ
  pc : WaitPc
  deriving DecidableEq

inductive WaitAction
  | tick (nanos : ℕ)
  | step
  | answer (a : EpollAnswer)
  deriving DecidableEq

namespace TimedWait

def start (cmsWait : Int32) (nanos : ℕ) : TimedWait :=
  { frame := .enter cmsWait.toInt (timeMillis nanos), flagWait := true, nanos := nanos, entered := nanos, read := nanos,
    pc := .test }

/-- What epoll_wait or poll returns; 0 comes only once the timeout has elapsed, and OnEvent of the Signaler clears
flag_wait_. -/
def answer (s : TimedWait) (a : EpollAnswer) : Option TimedWait :=
  match s.pc with
  | .wait since =>
    match a with
    | .failed true => some { s with pc := .elapse }
    | .failed false => some { s with pc := .returned false }
    | .timedOut =>
      if 0 ≤ toInt s.frame.msWait ∧ since + (toInt s.frame.msWait).toNat * 1000000 ≤ s.nanos then
        some { s with pc := .returned true }
      else none
    | .ready signaler => some { s with flagWait := s.flagWait && !signaler, pc := .elapse }
  | _ => none

def step (f : WaitFunction) (s : TimedWait) : WaitAction → Option TimedWait
  | .tick nanos => some { s with nanos := s.nanos + nanos }
  | .answer a => s.answer a
  | .step =>
    match s.pc with
    | .test => some { s with pc := if s.flagWait then .wait s.nanos else .returned true }
    | .elapse =>
      match f.elapse s.frame (timeMicros s.nanos) with
      | none => some { s with read := s.nanos, pc := .returned true }
      | some w => some { s with frame := w, read := s.nanos, pc := .test }
    | _ => none

/-- The milliseconds between two readings of TimeMillis. -/
def millis (since now : ℕ) : ℤ := timeDiff (timeMillis now) (timeMillis since)

/-- It returns true no earlier than due, and what it waits for at most is what remained when it last read the clock. -/
def Due (s : TimedWait) : Prop :=
  match s.pc with
  | .wait _ => 0 ≤ toInt s.frame.msWait ∧ toInt s.frame.msWait ≤ s.frame.cmsWait - millis s.entered s.read
  | .returned true => s.flagWait = false ∨ s.frame.cmsWait ≤ millis s.entered s.nanos
  | _ => True

/-- A loop body ends with flag_wait_ cleared or the time up, or within the first microsecond of the clock. -/
def Timely (s : TimedWait) (a : WaitAction) : Prop :=
  match a, s.pc with
  | .step, .elapse => s.flagWait = false ∨ s.frame.cmsWait ≤ millis s.entered s.nanos ∨ timeMicros s.nanos = 0
  | _, _ => True

end TimedWait

def timedMachine (f : WaitFunction) : Machine TimedWait WaitAction where
  init s := ∃ cmsWait nanos, s = .start cmsWait nanos
  step := TimedWait.step f

namespace TimedWait

/-- What the next epoll_wait or poll is given is what remained at the last reading of the clock. -/
def Remains (s : TimedWait) : Prop := s.frame.msWait = s.frame.cmsWait - millis s.entered s.read ∧ 0 ≤ s.frame.msWait

/-- What holds of the deadline in every run. -/
structure Clocked (s : TimedWait) : Prop where
  int : s.frame.cmsWait < 2 ^ 31
  order : s.entered ≤ s.read ∧ s.read ≤ s.nanos
  stop : s.frame.msStop = timeMillis s.entered + s.frame.cmsWait

structure Steady (s : TimedWait) : Prop extends Clocked s where
  test : s.pc = .test → s.flagWait = false ∨ s.Remains
  waiting : ∀ since, s.pc = .wait since → s.Remains ∧ s.read ≤ since
  returned : s.pc = .returned true → s.flagWait = false ∨ s.frame.cmsWait ≤ millis s.entered s.nanos

theorem millis_mono {since n m : ℕ} (h : n ≤ m) : millis since n ≤ millis since m := by
  simp only [millis, timeDiff, timeMillis]
  omega

theorem millis_nonneg {since n : ℕ} (h : since ≤ n) : 0 ≤ millis since n := by
  simp only [millis, timeDiff, timeMillis]
  omega

theorem Remains.toInt {s : TimedWait} (h : s.Remains) (hs : s.Clocked) : toInt s.frame.msWait = s.frame.msWait := by
  obtain ⟨he,h0⟩ := h
  have hm := millis_nonneg hs.order.1
  have hi := hs.int
  exact toInt_eq ⟨by omega,by omega⟩

theorem start_cmsWait (cmsWait : Int32) (nanos : ℕ) : (TimedWait.start cmsWait nanos).frame.cmsWait = cmsWait.toInt := by
  rw [TimedWait.start, WaitFrame.enter]
  split <;> rfl

theorem frame_of_step {f : WaitFunction} {s t : TimedWait} {a : WaitAction} (he : s.step f a = some t) :
    t.frame.cmsWait = s.frame.cmsWait ∧ t.frame.msStop = s.frame.msStop ∧ t.entered = s.entered ∧
      s.nanos ≤ t.nanos ∧ (t.read = s.read ∨ t.read = s.nanos) := by
  cases a with
  | tick nanos =>
    cases he
    exact ⟨rfl,rfl,rfl,Nat.le_add_right _ _,.inl rfl⟩
  | answer a =>
    simp only [TimedWait.step, TimedWait.answer] at he
    split at he
    · split at he
      · cases he
        exact ⟨rfl,rfl,rfl,le_rfl,.inl rfl⟩
      · cases he
        exact ⟨rfl,rfl,rfl,le_rfl,.inl rfl⟩
      · obtain ⟨-,he⟩ := Option.ite_none_right_eq_some.mp he
        cases he
        exact ⟨rfl,rfl,rfl,le_rfl,.inl rfl⟩
      · cases he
        exact ⟨rfl,rfl,rfl,le_rfl,.inl rfl⟩
    · cases he
  | step =>
    simp only [TimedWait.step] at he
    split at he
    · cases he
      exact ⟨rfl,rfl,rfl,le_rfl,.inl rfl⟩
    · split at he
      · cases he
        exact ⟨rfl,rfl,rfl,le_rfl,.inr rfl⟩
      · rename_i hw
        cases he
        obtain ⟨hc,hs⟩ := WaitFunction.elapse_keeps hw
        exact ⟨hc,hs,rfl,le_rfl,.inr rfl⟩
    · cases he

namespace Clocked
variable {s t : TimedWait}

theorem step (h : s.Clocked) {f : WaitFunction} {a : WaitAction} (he : s.step f a = some t) : t.Clocked := by
  obtain ⟨hc,hs,hn,hle,hr⟩ := frame_of_step he
  have ho := h.order
  exact ⟨hc ▸ h.int,by omega,by rw [hc, hs, hn, h.stop]⟩

theorem start {cmsWait : Int32} (hc : 0 ≤ cmsWait.toInt) (nanos : ℕ) : Clocked (.start cmsWait nanos) := by
  have hf : (TimedWait.start cmsWait nanos).frame = ⟨cmsWait.toInt,cmsWait.toInt,timeMillis nanos + cmsWait.toInt⟩ :=
    WaitFrame.enter_finite hc _
  refine ⟨hf ▸ cmsWait.toInt_lt,⟨le_rfl,le_rfl⟩,?_⟩
  rw [hf]
  rfl

theorem of_reachable {f : WaitFunction} {ok : TimedWait → WaitAction → Prop} (h : (timedMachine f).Reachable ok s)
    (hc : 0 ≤ s.frame.cmsWait) : s.Clocked := by
  refine h.rule (I := fun s => 0 ≤ s.frame.cmsWait → s.Clocked) ?_ ?_ hc
  · rintro u ⟨cmsWait,nanos,rfl⟩ hu
    exact .start (start_cmsWait cmsWait nanos ▸ hu) nanos
  · intro u a v hu _ he hv
    exact (hu ((frame_of_step he).1 ▸ hv)).step he

/-- At the end of a loop body with flag_wait_ set the wait goes on for exactly what remains, if it is not over, in just
the timely steps. -/
theorem timely_iff (h : s.Clocked) {f : WaitFunction} (hc : 0 ≤ s.frame.cmsWait) (hp : s.pc = .elapse)
    (hf : s.flagWait = true) (he : s.step f .step = some t) :
    (s.frame.cmsWait ≤ millis s.entered s.nanos ∨ t.pc = .test ∧ t.Remains) ↔ s.Timely .step := by
  have ho := h.order
  have hstop := h.stop
  have hne := finite_ne_forever hc
  simp only [Timely, hp, hf, Bool.true_eq_false, false_or]
  by_cases hd : s.frame.cmsWait ≤ millis s.entered s.nanos
  · exact iff_of_true (.inl hd) (.inl hd)
  rw [or_iff_right hd, or_iff_right hd]
  cases hw : f.elapse s.frame (timeMicros s.nanos) with
  | none =>
    simp only [TimedWait.step, hp, hw, Option.some_inj] at he
    subst he
    have hz := WaitFunction.elapse_none hne hw
    refine iff_of_false (by simp) fun hm => ?_
    simp only [millis, timeDiff, timeMillis, timeMicros] at *
    omega
  | some w =>
    simp only [TimedWait.step, hp, hw, Option.some_inj] at he
    subst he
    obtain ⟨rfl,hz⟩ := WaitFunction.elapse_some hne hw
    simp only [Remains, millis, timeDiff, timeMillis, timeMicros, true_and] at *
    omega

end Clocked

namespace Steady
variable {s t : TimedWait}

theorem due (h : s.Steady) : s.Due := by
  unfold Due
  split
  · rename_i since hp
    obtain ⟨hr,-⟩ := h.waiting since hp
    rw [hr.toInt h.toClocked]
    exact ⟨hr.2,hr.1.le⟩
  · rename_i hp
    exact h.returned hp
  · trivial

theorem start {cmsWait : Int32} (hc : 0 ≤ cmsWait.toInt) (nanos : ℕ) : Steady (.start cmsWait nanos) where
  toClocked := .start hc nanos
  test _ := by
    have hf : (TimedWait.start cmsWait nanos).frame = ⟨cmsWait.toInt,cmsWait.toInt,timeMillis nanos + cmsWait.toInt⟩ :=
      WaitFrame.enter_finite hc _
    refine .inr ⟨?_,hf ▸ hc⟩
    rw [hf]
    simp [TimedWait.start, millis, timeDiff]
  waiting := by simp [TimedWait.start]
  returned := by simp [TimedWait.start]

theorem tick (h : s.Steady) {f : WaitFunction} {n : ℕ} (he : s.step f (.tick n) = some t) : t.Steady := by
  have hk := h.toClocked.step he
  cases he
  exact ⟨hk,h.test,h.waiting,fun hp => (h.returned hp).imp_right fun hr => hr.trans (millis_mono (Nat.le_add_right _ _))⟩

theorem answer (h : s.Steady) {f : WaitFunction} {a : EpollAnswer} (he : s.step f (.answer a) = some t) : t.Steady := by
  have hk := h.toClocked.step he
  simp only [TimedWait.step, TimedWait.answer] at he
  split at he
  · rename_i since hp
    obtain ⟨hr,hs⟩ := h.waiting since hp
    cases a with
    | failed interrupted =>
      cases interrupted with
      | true | false =>
        cases he
        exact ⟨hk,by simp,by simp,by simp⟩
    | timedOut =>
      obtain ⟨⟨h0,hw⟩,he⟩ := Option.ite_none_right_eq_some.mp he
      cases he
      refine ⟨hk,by simp,by simp,fun _ => .inr ?_⟩
      rw [hr.toInt h.toClocked] at h0 hw
      have hm := hr.1
      have ho := h.order.1
      simp only [millis, timeDiff, timeMillis] at hm ⊢
      omega
    | ready signaler =>
      cases he
      exact ⟨hk,by simp,by simp,by simp⟩
  · cases he

theorem step (h : s.Steady) {f : WaitFunction} (hc : 0 ≤ s.frame.cmsWait) (ht : s.Timely .step)
    (he : s.step f .step = some t) : t.Steady := by
  have hk := h.toClocked.step he
  have ho := h.order
  cases hp : s.pc with
  | test =>
    simp only [TimedWait.step, hp, Option.some_inj] at he
    cases hf : s.flagWait with
    | true =>
      simp only [hf, if_true] at he
      subst he
      refine ⟨hk,by simp,fun since hw => ?_,by simp⟩
      cases hw
      refine ⟨(h.test hp).resolve_left ?_,ho.2⟩
      rw [hf]
      decide
    | false =>
      subst he
      exact ⟨hk,by simp [hf],by simp [hf],fun _ => .inl hf⟩
  | elapse =>
    have hstop := h.stop
    simp only [Timely, hp] at ht
    cases hw : f.elapse s.frame (timeMicros s.nanos) with
    | none =>
      simp only [TimedWait.step, hp, hw, Option.some_inj] at he
      subst he
      have hz := WaitFunction.elapse_none (finite_ne_forever hc) hw
      refine ⟨hk,by simp,by simp,fun _ => ht.imp_right fun ht => ?_⟩
      simp only [millis, timeDiff, timeMillis, timeMicros] at *
      omega
    | some w =>
      simp only [TimedWait.step, hp, hw, Option.some_inj] at he
      subst he
      obtain ⟨rfl,hz⟩ := WaitFunction.elapse_some (finite_ne_forever hc) hw
      refine ⟨hk,fun _ => ht.imp_right fun ht => ?_,by simp,by simp⟩
      simp only [Remains, millis, timeDiff, timeMillis, timeMicros] at *
      omega
  | wait since => simp [TimedWait.step, hp] at he
  | returned result => simp [TimedWait.step, hp] at he

end Steady

/-- In every run whose loop bodies are timely a wait with a timeout is due. -/
theorem due_of_timely {f : WaitFunction} {s : TimedWait} (h : (timedMachine f).Reachable Timely s)
    (hc : 0 ≤ s.frame.cmsWait) : s.Due := by
  have hs : s.Steady := by
    refine h.rule (I := fun s => 0 ≤ s.frame.cmsWait → s.Steady) ?_ ?_ hc
    · rintro u ⟨cmsWait,nanos,rfl⟩ hu
      exact .start (start_cmsWait cmsWait nanos ▸ hu) nanos
    · intro u a v hu ha he hv
      have hc := (frame_of_step he).1 ▸ hv
      cases a with
      | tick nanos => exact (hu hc).tick (f := f) he
      | step => exact (hu hc).step hc ha he
      | answer a => exact (hu hc).answer (f := f) he
  exact hs.due

instance (s : TimedWait) : Decidable s.Due := by
  unfold Due
  split <;> infer_instance

instance (s : TimedWait) (a : WaitAction) : Decidable (s.Timely a) := by
  unfold Timely
  split <;> infer_instance

theorem init_start (f : WaitFunction) (cmsWait : Int32) (nanos : ℕ) : (timedMachine f).init (.start cmsWait nanos) :=
  ⟨cmsWait,nanos,rfl⟩

/-- A wait of five milliseconds that begins with an interrupted call. -/
theorem due_of_timely_five : ∃ s : TimedWait, s.pc = .returned true ∧ s.flagWait = true ∧ s.Due := by
  have h : ((timedMachine .waitEpoll).run Timely (.start 5 0)
      [.step, .answer (.failed true), .step, .step, .tick 5000000, .answer .timedOut]).any
      (fun s => decide (s.pc = .returned true ∧ s.flagWait = true ∧ 0 ≤ s.frame.cmsWait)) = true := by
    decide +kernel
  obtain ⟨s,hs,hp⟩ := Machine.exists_reachable_of_run (init_start _ 5 0) h
  obtain ⟨hr,hf,hc⟩ := of_decide_eq_true hp
  exact ⟨s,hr,hf,due_of_timely hs hc⟩

/-- Both functions are always due. -/
def AlwaysDue (f : WaitFunction) : Prop :=
  ∀ s : TimedWait, (timedMachine f).Reachable Machine.Free s → 0 ≤ s.frame.cmsWait → s.Due

/-- An interrupt a second after the clock started ends a wait of five seconds at once. -/
theorem not_always_due : ¬ AlwaysDue .waitEpoll ∧ ¬ AlwaysDue .waitPollOneDispatcher := by
  have hn : ∀ f, ((timedMachine f).run Machine.Free (.start 5000 1000000000) [.step, .answer (.failed true), .step]).any
      (fun s => decide (0 ≤ s.frame.cmsWait ∧ ¬ s.Due)) = true → ¬ AlwaysDue f := by
    intro f h hall
    obtain ⟨s,hs,hp⟩ := Machine.exists_reachable_of_run (init_start f 5000 1000000000) h
    obtain ⟨hc,hd⟩ := of_decide_eq_true hp
    exact hd (hall s hs hc)
  exact ⟨hn _ (by decide +kernel),hn _ (by decide +kernel)⟩

end TimedWait
end UServer.Concurrency
