import UServer.Concurrency.ThreadObject
import UServer.Library.Runs

/-! TaskQueueBase::Current() on every OS thread while Threads are started, stopped, restarted and
destroyed from any of them: the setter kept in a Thread is undone by whichever OS thread drops it. -/
namespace UServer.Concurrency
open Library

/-- What an OS thread runs: code that no Thread started, or PreRun of a Thread, where the setter that
make_unique built is not yet in the member, or is, or PreRun is over. -/
inductive Phase (τ : Type*)
  | absent
  | other
  | entered (t : τ)
  | registered (t : τ) (setter : CurrentTaskQueueSetter τ)
  | running (t : τ)
  | exited (t : τ)
  deriving DecidableEq

/-- The Thread objects, the OS threads and the thread-specific value each of them holds. -/
structure Threads (τ : Type*) where
  objects : τ → Option (ThreadObject τ)
  phase : Handle → Phase τ
  current : Handle → Option τ

/-- Operations of the code on an OS thread, steps of PreRun and of the system. -/
inductive ThreadsAction (τ : Type*)
  | spawn (p : Handle)
  | construct (o : Handle) (t : τ) (thread : Handle)
  | start (o : Handle) (t : τ) (c : CreateOutcome)
  | quit (o : Handle) (t : τ)
  | join (o : Handle) (t : τ)
  | restart (o : Handle) (t : τ)
  | destroy (o : Handle) (t : τ)
  | preRun (p : Handle)
  | finish (p : Handle)

namespace Threads
variable {τ : Type*} (s : Threads τ)

/-- User code runs on an OS thread that is inside Run or belongs to no Thread. -/
def active (o : Handle) : Bool :=
  match s.phase o with
  | .other | .running _ => true
  | _ => false

/-- pthread_join of a thread returns: it is over, there is none, or it is the caller. -/
def joinable (o h : Handle) : Bool :=
  h = o || match s.phase h with
    | .absent | .exited _ => true
    | _ => false

/-- What pthread_join leaves of a thread that is over. -/
def reap (h : Handle) : Handle → Phase τ :=
  match s.phase h with
  | .exited _ => Function.update s.phase h .absent
  | _ => s.phase

variable [DecidableEq τ]

def setObject (t : τ) (x : Option (ThreadObject τ)) : Threads τ := { s with objects := Function.update s.objects t x }

@[simp] theorem setObject_same (t : τ) (x : Option (ThreadObject τ)) : (s.setObject t x).objects t = x :=
  Function.update_self _ _ _

theorem setObject_ne {t u : τ} (h : u ≠ t) (x : Option (ThreadObject τ)) : (s.setObject t x).objects u = s.objects u :=
  Function.update_of_ne h _ _

/-- The constructor of CurrentTaskQueueSetter on an OS thread. -/
def construct (p : Handle) (t : τ) : Threads τ × CurrentTaskQueueSetter τ :=
  ({ s with current := Function.update s.current p (some t) },⟨s.current p⟩)

/-- The destructor of the setter a Thread holds, if it holds one, on an OS thread. -/
def drop (p : Handle) (r : Option (CurrentTaskQueueSetter τ)) : Threads τ :=
  match r with
  | some setter => { s with current := Function.update s.current p setter.previous }
  | none => s

/-- Start on an object, which may create an OS thread with no thread-specific values. -/
def start (t : τ) (x : ThreadObject τ) (c : CreateOutcome) : Option (Threads τ) :=
  let s' := s.setObject t (some (Thread.start x c).1)
  match c with
  | .failed _ => some s'
  | .created p =>
    if Thread.isRunning x then some s'
    else if p ≠ 0 ∧ s.phase p = .absent then
      some { s' with phase := Function.update s.phase p (.entered t), current := Function.update s.current p none }
    else none

def join (o : Handle) (t : τ) (x : ThreadObject τ) : Option (Threads τ) :=
  if Thread.isRunning x then
    if s.joinable o x.thread then some { s.setObject t (some (Thread.join x)) with phase := s.reap x.thread } else none
  else some s

/-- A step of PreRun: the setter is built, then the member takes it and drops the old one, and Run begins. -/
def preRun (p : Handle) : Option (Threads τ) :=
  match s.phase p with
  | .entered t =>
    let (s',setter) := s.construct p t
    some { s' with phase := Function.update s.phase p (.registered t setter) }
  | .registered t setter =>
    (s.objects t).map fun x =>
      let s' := (s.setObject t (some { x with registration := some setter })).drop p x.registration
      { s' with phase := Function.update s.phase p (.running t) }
  | _ => none

/-- An operation on a Thread that exists, by code on an OS thread. -/
def on (o : Handle) (t : τ) (f : ThreadObject τ → Option (Threads τ)) : Option (Threads τ) :=
  if s.active o then (s.objects t).bind f else none

def step : ThreadsAction τ → Option (Threads τ)
  | .spawn p =>
    if s.phase p = .absent then
      some { s with phase := Function.update s.phase p .other, current := Function.update s.current p none }
    else none
  | .construct o t thread =>
    if s.active o ∧ s.objects t = none then some (s.setObject t (some (Thread.construct thread))) else none
  | .start o t c => s.on o t fun x => s.start t x c
  | .quit o t => s.on o t fun x => some (s.setObject t (some (Thread.quit x)))
  | .join o t => s.on o t fun x => s.join o t x
  | .restart o t => s.on o t fun x => some (s.setObject t (some (Thread.restart x)))
  | .destroy o t => s.on o t fun x =>
    (s.join o t (Thread.quit x)).map fun s' => (s'.setObject t none).drop o x.registration
  | .preRun p => s.preRun p
  | .finish p =>
    match s.phase p with
    | .running t => some { s with phase := Function.update s.phase p (.exited t) }
    | _ => none

end Threads

/-- No Thread exists yet, and no OS thread has a thread-specific value. -/
def threadsMachine (τ : Type*) [DecidableEq τ] : Machine (Threads τ) (ThreadsAction τ) where
  init s := (∀ t, s.objects t = none) ∧ (∀ p, s.phase p = .absent ∨ s.phase p = .other) ∧ ∀ p, s.current p = none
  step s a := s.step a

/-- A Thread that ran is not started again, and is destroyed only where Current() is null. -/
def SetterKept {τ : Type*} (s : Threads τ) : ThreadsAction τ → Prop
  | .start _ t (.created _) => ∀ x ∈ s.objects t, Thread.isRunning x = false → x.registration = none
  | .destroy o t => ∀ x ∈ s.objects t, x.registration ≠ none → s.current o = none
  | _ => True

instance {τ : Type*} [DecidableEq τ] (s : Threads τ) (a : ThreadsAction τ) : Decidable (SetterKept s a) :=
  match a with
  | .start _ t (.created _) =>
    inferInstanceAs (Decidable (∀ x ∈ s.objects t, Thread.isRunning x = false → x.registration = none))
  | .destroy o t => inferInstanceAs (Decidable (∀ x ∈ s.objects t, x.registration ≠ none → s.current o = none))
  | .start _ _ (.failed _) | .spawn _ | .construct .. | .quit .. | .join .. | .restart .. | .preRun _ | .finish _ =>
    inferInstanceAs (Decidable True)

namespace Threads
variable {τ : Type*} {s : Threads τ}

/-- The OS thread runs code of the process, not the beginning or the end of PreRun. -/
def InCode (s : Threads τ) (p : Handle) : Prop := s.phase p = .other ∨ ∃ t, s.phase p = .running t

/-- The Thread whose PreRun an OS thread is about to finish. -/
inductive Starting (s : Threads τ) (p : Handle) (t : τ) : Prop
  | entered (h : s.phase p = .entered t)
  | registered {r : CurrentTaskQueueSetter τ} (h : s.phase p = .registered t r)

/-- What PreRun relies on: the Thread is there, names this OS thread, and holds no older setter. -/
def Fresh (y : Option (ThreadObject τ)) (p : Handle) : Prop :=
  p ≠ 0 ∧ ∃ x, y = some x ∧ x.thread = p ∧ x.registration = none

/-- Every OS thread inside Run has its Thread as the current one, and setters restore null. -/
structure Sound (s : Threads τ) : Prop where
  running : ∀ p t, s.phase p = .running t → s.current p = some t
  entered : ∀ p t, s.phase p = .entered t → s.current p = none
  registered : ∀ p t r, s.phase p = .registered t r → s.current p = some t ∧ r.previous = none
  fresh : ∀ p t, s.Starting p t → Fresh (s.objects t) p
  previous : ∀ t x r, s.objects t = some x → x.registration = some r → r.previous = none

theorem not_starting_of_active {o : Handle} (ho : s.active o = true) {t : τ} : ¬ s.Starting o t := by
  rintro (h | h)
  · simp [active, h] at ho
  · simp [active, h] at ho

theorem reap_eq (h q : Handle) : s.reap h q = s.phase q ∨ s.reap h q = .absent := by
  cases hp : s.phase h with
  | exited t =>
    have hr : s.reap h = Function.update s.phase h .absent := by rw [reap, hp]
    rw [hr]
    by_cases hq : q = h
    · subst hq
      exact .inr (Function.update_self _ _ _)
    · exact .inl (Function.update_of_ne hq _ _)
  | _ => exact .inl (by rw [reap, hp])

/-- An OS thread in PreRun cannot be joined by another. -/
theorem not_starting_of_joinable {o h : Handle} (ho : s.active o = true) (hj : s.joinable o h = true) {t : τ} :
    ¬ s.Starting h t := by
  intro hs
  rw [joinable, Bool.or_eq_true] at hj
  rcases hj with hj | hj
  · rw [of_decide_eq_true hj] at hs
    exact not_starting_of_active ho hs
  · cases hs with
    | entered h | registered h => simp [h] at hj

namespace Sound
variable [DecidableEq τ]

/-- An object may change unless an OS thread is in its PreRun. -/
theorem setObject (h : s.Sound) {t : τ} {y : Option (ThreadObject τ)} (hy : ∀ p, s.Starting p t → Fresh y p)
    (hr : ∀ x r, y = some x → x.registration = some r → r.previous = none) : (s.setObject t y).Sound := by
  refine ⟨h.running,h.entered,h.registered,fun p u hu => ?_,fun u x r hx => ?_⟩
  · have hs : s.Starting p u := by
      cases hu with
      | entered h => exact .entered h
      | registered h => exact .registered h
    by_cases hut : u = t
    · subst hut
      rw [setObject_same]
      exact hy p hs
    · rw [setObject_ne s hut]
      exact h.fresh p u hs
  · by_cases hut : u = t
    · subst hut
      rw [setObject_same] at hx
      exact hr x r hx
    · rw [setObject_ne s hut] at hx
      exact h.previous u x r hx

omit [DecidableEq τ] in
/-- An OS thread changes its phase and its thread-specific value. -/
theorem update (h : s.Sound) {p : Handle} {ph : Phase τ} {c : Option τ} (hrun : ∀ t, ph = .running t → c = some t)
    (hent : ∀ t, ph = .entered t → c = none ∧ Fresh (s.objects t) p)
    (hreg : ∀ t r, ph = .registered t r → c = some t ∧ r.previous = none ∧ Fresh (s.objects t) p) :
    Sound { s with phase := Function.update s.phase p ph, current := Function.update s.current p c } := by
  have hcase : ∀ q, (q = p ∧ Function.update s.phase p ph q = ph ∧ Function.update s.current p c q = c) ∨
      (Function.update s.phase p ph q = s.phase q ∧ Function.update s.current p c q = s.current q) := by
    intro q
    by_cases hq : q = p
    · subst hq
      exact .inl ⟨rfl,Function.update_self _ _ _,Function.update_self _ _ _⟩
    · exact .inr ⟨Function.update_of_ne hq _ _,Function.update_of_ne hq _ _⟩
  refine ⟨fun q t hq => ?_,fun q t hq => ?_,fun q t r hq => ?_,fun q t hq => ?_,h.previous⟩
  · rcases hcase q with ⟨rfl,hp,hc⟩ | ⟨hp,hc⟩
    · exact hc.trans (hrun t (hp.symm.trans hq))
    · exact hc.trans (h.running q t (hp.symm.trans hq))
  · rcases hcase q with ⟨rfl,hp,hc⟩ | ⟨hp,hc⟩
    · exact hc.trans (hent t (hp.symm.trans hq)).1
    · exact hc.trans (h.entered q t (hp.symm.trans hq))
  · rcases hcase q with ⟨rfl,hp,hc⟩ | ⟨hp,hc⟩
    · obtain ⟨hct,hr,-⟩ := hreg t r (hp.symm.trans hq)
      exact ⟨hc.trans hct,hr⟩
    · obtain ⟨hct,hr⟩ := h.registered q t r (hp.symm.trans hq)
      exact ⟨hc.trans hct,hr⟩
  · cases hq with
    | entered hq =>
      rcases hcase q with ⟨rfl,hp,-⟩ | ⟨hp,-⟩
      · exact (hent t (hp.symm.trans hq)).2
      · exact h.fresh q t (.entered (hp.symm.trans hq))
    | registered hq =>
      rcases hcase q with ⟨rfl,hp,-⟩ | ⟨hp,-⟩
      · exact (hreg t _ (hp.symm.trans hq)).2.2
      · exact h.fresh q t (.registered (hp.symm.trans hq))

omit [DecidableEq τ] in
/-- An OS thread changes its phase only. -/
theorem setPhase (h : s.Sound) {p : Handle} {ph : Phase τ} (hrun : ∀ t, ph = .running t → s.current p = some t)
    (hent : ∀ t, ph ≠ .entered t) (hreg : ∀ t r, ph ≠ .registered t r) :
    Sound { s with phase := Function.update s.phase p ph } := by
  have hu := h.update (p := p) hrun (fun t ht => absurd ht (hent t)) fun t r hr => absurd hr (hreg t r)
  rwa [Function.update_eq_self] at hu

omit [DecidableEq τ] in
theorem reap (h : s.Sound) (p : Handle) : Sound { s with phase := s.reap p } := by
  rw [Threads.reap]
  split
  · exact h.setPhase nofun nofun nofun
  · exact h

variable {o : Handle} {t : τ} {x y : ThreadObject τ} {s' : Threads τ}

/-- A call that keeps the handle and the setter of an object. -/
theorem keep (h : s.Sound) (hx : s.objects t = some x) (hy : y.thread = x.thread) (hr : y.registration = x.registration) :
    (s.setObject t (some y)).Sound := by
  apply h.setObject
  · intro p hp
    obtain ⟨hp0,z,hz,hzt,hzr⟩ := h.fresh p t hp
    cases hx.symm.trans hz
    exact ⟨hp0,y,rfl,hy.trans hzt,hr.trans hzr⟩
  · rintro z r ⟨⟩ hz
    exact h.previous t x r hx (hr ▸ hz)

/-- Join leaves no OS thread in PreRun of the object, and touches no thread-specific value. -/
theorem join (h : s.Sound) (ho : s.active o = true) (hx : s.objects t = some x) (hy : y.thread = x.thread)
    (hr : y.registration = x.registration) (he : s.join o t y = some s') :
    s'.Sound ∧ (∀ p, ¬ s'.Starting p t) ∧ s'.current = s.current := by
  rw [Threads.join] at he
  split at he
  · obtain ⟨hj,he⟩ := Option.ite_none_right_eq_some.mp he
    cases he
    have hn : ∀ p, ¬ s.Starting p t := by
      intro p hp
      obtain ⟨-,z,hz,hzt,-⟩ := h.fresh p t hp
      cases hx.symm.trans hz
      exact not_starting_of_joinable ho hj (hy ▸ hzt ▸ hp)
    have hs := (h.setObject (y := some (Thread.join y)) (fun p hp => absurd hp (hn p)) ?_).reap y.thread
    · refine ⟨hs,fun p hp => ?_,rfl⟩
      rcases s.reap_eq y.thread p with hq | hq
      · cases hp with
        | entered hp => exact hn p (.entered (hq.symm.trans hp))
        | registered hp => exact hn p (.registered (hq.symm.trans hp))
      · cases hp with
        | entered hp | registered hp => cases hq.symm.trans hp
    · rintro z r ⟨⟩ hz
      rw [Thread.join] at hz
      split at hz
      · exact h.previous t x r hx (hr ▸ hz)
      · exact h.previous t x r hx (hr ▸ hz)
  · rename_i hz
    cases he
    refine ⟨h,fun p hp => ?_,rfl⟩
    obtain ⟨hp0,z,hz',hzt,-⟩ := h.fresh p t hp
    cases hx.symm.trans hz'
    exact hp0 (hzt.symm.trans (hy.symm.trans (by simpa [Thread.isRunning] using hz)))

/-- Start creates an OS thread without a current Thread, for a Thread that holds no setter. -/
theorem start {c : CreateOutcome} (h : s.Sound) (hx : s.objects t = some x)
    (ha : ∀ p, c = .created p → Thread.isRunning x = false → x.registration = none)
    (he : s.start t x c = some s') : s'.Sound ∧ ∀ q, s.InCode q → s'.current q = s.current q := by
  cases hr : Thread.isRunning x with
  | true =>
    have hk := h.keep (y := (Thread.start x c).1) hx (by simp [Thread.start, hr]) (by simp [Thread.start, hr])
    cases c with
    | failed left =>
      cases he
      exact ⟨hk,fun _ _ => rfl⟩
    | created p =>
      simp only [Threads.start, hr, if_true] at he
      cases he
      exact ⟨hk,fun _ _ => rfl⟩
  | false =>
    have hz : x.thread = 0 := by simpa [Thread.isRunning] using hr
    have hn : ∀ p, ¬ s.Starting p t := by
      intro p hp
      obtain ⟨hp0,z,hz',hzt,-⟩ := h.fresh p t hp
      cases hx.symm.trans hz'
      exact hp0 (hzt.symm.trans hz)
    cases c with
    | failed left =>
      cases he
      refine ⟨h.setObject (fun p hp => absurd hp (hn p)) ?_,fun _ _ => rfl⟩
      rintro z r ⟨⟩ hzr
      simp only [Thread.start, hr] at hzr
      exact h.previous t x r hx hzr
    | created p =>
      simp only [Threads.start, hr] at he
      obtain ⟨⟨hp0,hp⟩,he⟩ := Option.ite_none_right_eq_some.mp he
      cases he
      have hreg := ha p rfl hr
      have hs := h.setObject (y := some (Thread.start x (.created p)).1) (fun q hq => absurd hq (hn q)) (by
        rintro z r ⟨⟩ hzr
        simp only [Thread.start, hr] at hzr
        exact h.previous t x r hx hzr)
      refine ⟨hs.update (p := p) nofun ?_ nofun,fun q hq => ?_⟩
      · rintro u ⟨⟩
        refine ⟨rfl,hp0,_,setObject_same s t _,?_,?_⟩
        · simp [Thread.start, hr]
        · simp [Thread.start, hr, hreg]
      · refine Function.update_of_ne ?_ _ _
        rintro rfl
        rcases hq with hq | ⟨u,hq⟩
        · cases hq.symm.trans hp
        · cases hq.symm.trans hp

omit [DecidableEq τ] in
theorem drop_eq_self {p : Handle} {r : Option (CurrentTaskQueueSetter τ)}
    (hr : ∀ setter, r = some setter → setter.previous = s.current p) : s.drop p r = s := by
  cases r with
  | none => rfl
  | some setter => rw [Threads.drop, hr setter rfl, Function.update_eq_self]

/-- PreRun builds a setter that restores null, drops none, and makes its Thread the current one. -/
theorem preRun {p : Handle} (h : s.Sound) (he : s.preRun p = some s') :
    s'.Sound ∧ ∀ q, s.InCode q → s'.current q = s.current q := by
  have hframe : ∀ {u : τ} {c : Option τ} {q : Handle}, s.Starting p u → s.InCode q →
      Function.update s.current p c q = s.current q := by
    intro u c q hp hq
    refine Function.update_of_ne ?_ _ _
    rintro rfl
    cases hp with
    | entered hp | registered hp =>
      rcases hq with hq | ⟨v,hq⟩
      · cases hq.symm.trans hp
      · cases hq.symm.trans hp
  rw [Threads.preRun] at he
  split at he
  · rename_i t hp
    cases he
    refine ⟨h.update nofun nofun ?_,fun q hq => hframe (.entered hp) hq⟩
    rintro u r ⟨⟩
    exact ⟨rfl,h.entered p t hp,h.fresh p t (.entered hp)⟩
  · rename_i t setter hp
    obtain ⟨x,hx,rfl⟩ := Option.map_eq_some_iff.mp he
    obtain ⟨hc,hprev⟩ := h.registered p t setter hp
    obtain ⟨-,z,hz,hzt,hzr⟩ := h.fresh p t (.registered hp)
    cases hx.symm.trans hz
    rw [hzr]
    have hrun : Sound { s with phase := Function.update s.phase p (.running t) } :=
      h.setPhase (by rintro u ⟨⟩; exact hc) nofun nofun
    refine ⟨hrun.setObject (fun q hq => ?_) (by rintro w r ⟨⟩ ⟨⟩; exact hprev),fun q _ => rfl⟩
    have hqp : q ≠ p := by
      rintro rfl
      cases hq with
      | entered hq | registered hq => cases (Function.update_self _ _ _).symm.trans hq
    have hqs : s.Starting q t := by
      cases hq with
      | entered hq => exact .entered ((Function.update_of_ne hqp _ _).symm.trans hq)
      | registered hq => exact .registered ((Function.update_of_ne hqp _ _).symm.trans hq)
    obtain ⟨-,w,hw,hwt,-⟩ := h.fresh q t hqs
    cases hx.symm.trans hw
    exact absurd (hwt.symm.trans hzt) hqp
  · cases he

end Sound

variable [DecidableEq τ] {s' : Threads τ} {o : Handle} {t : τ}

omit [DecidableEq τ] in
theorem on_eq_some {f : ThreadObject τ → Option (Threads τ)} (he : s.on o t f = some s') :
    s.active o = true ∧ ∃ x, s.objects t = some x ∧ f x = some s' := by
  obtain ⟨ho,he⟩ := Option.ite_none_right_eq_some.mp he
  exact ⟨ho,Option.bind_eq_some_iff.mp he⟩

/-- Every step keeps the current Thread right, and changes it on no OS thread that runs code. -/
theorem Sound.step (h : s.Sound) {a : ThreadsAction τ} (ha : SetterKept s a) (he : s.step a = some s') :
    s'.Sound ∧ ∀ q, s.InCode q → s'.current q = s.current q := by
  cases a with
  | spawn p =>
    obtain ⟨hp,he⟩ := Option.ite_none_right_eq_some.mp he
    cases he
    refine ⟨h.update nofun nofun nofun,fun q hq => Function.update_of_ne ?_ _ _⟩
    rintro rfl
    rcases hq with hq | ⟨u,hq⟩
    · cases hq.symm.trans hp
    · cases hq.symm.trans hp
  | construct o t thread =>
    obtain ⟨⟨-,ht⟩,he⟩ := Option.ite_none_right_eq_some.mp he
    cases he
    refine ⟨h.setObject (fun p hp => ?_) (by rintro x r ⟨⟩ ⟨⟩),fun _ _ => rfl⟩
    obtain ⟨-,z,hz,-⟩ := h.fresh p t hp
    cases ht.symm.trans hz
  | start o t c =>
    obtain ⟨-,x,hx,he⟩ := on_eq_some he
    refine h.start hx (fun p hp hr => ?_) he
    subst hp
    exact ha x hx hr
  | quit o t =>
    obtain ⟨-,x,hx,he⟩ := on_eq_some he
    cases he
    exact ⟨h.keep hx rfl rfl,fun _ _ => rfl⟩
  | join o t =>
    obtain ⟨ho,x,hx,he⟩ := on_eq_some he
    obtain ⟨hs,-,hc⟩ := h.join ho hx rfl rfl he
    exact ⟨hs,fun q _ => congrFun hc q⟩
  | restart o t =>
    obtain ⟨-,x,hx,he⟩ := on_eq_some he
    cases he
    exact ⟨h.keep hx rfl rfl,fun _ _ => rfl⟩
  | destroy o t =>
    obtain ⟨ho,x,hx,he⟩ := on_eq_some he
    obtain ⟨s₁,hj,rfl⟩ := Option.map_eq_some_iff.mp he
    obtain ⟨hs,hn,hc⟩ := h.join (y := Thread.quit x) ho hx rfl rfl hj
    have hd : (s₁.setObject t none).drop o x.registration = s₁.setObject t none := by
      refine Sound.drop_eq_self fun setter hset => ?_
      have hcur : s.current o = none := ha x hx (by rw [hset]; exact Option.some_ne_none _)
      exact (h.previous t x setter hx hset).trans (hcur.symm.trans (congrFun hc o).symm)
    rw [hd]
    exact ⟨hs.setObject (fun p hp => absurd hp (hn p)) (fun x r hx => nomatch hx),fun q _ => congrFun hc q⟩
  | preRun p => exact h.preRun he
  | finish p =>
    rw [Threads.step] at he
    split at he
    · cases he
      exact ⟨h.setPhase nofun nofun nofun,fun _ _ => rfl⟩
    · cases he

end Threads

/-- In every run in which no Thread is started again and setters are dropped only where Current() is null,
Current() inside Run is the Thread, and no operation on a Thread changes it on an OS thread that runs code. -/
theorem current_task_queue {τ : Type*} [DecidableEq τ] {s : Threads τ}
    (h : (threadsMachine τ).Reachable SetterKept s) :
    (∀ p t, s.phase p = .running t → s.current p = some t) ∧
      ∀ a s', SetterKept s a → s.step a = some s' → ∀ q, s.InCode q → s'.current q = s.current q := by
  have hs : s.Sound := by
    apply h.rule
    · rintro s ⟨ho,hp,-⟩
      have hne : ∀ p t, ¬ s.Starting p t := by
        rintro p t (hs | hs)
        · rcases hp p with hp | hp <;> cases hp.symm.trans hs
        · rcases hp p with hp | hp <;> cases hp.symm.trans hs
      refine ⟨fun p t hr => ?_,fun p t he => absurd (.entered he) (hne p t),
        fun p t r hr => absurd (.registered hr) (hne p t),fun p t hs => absurd hs (hne p t),fun t x r hx => ?_⟩
      · rcases hp p with hp | hp <;> cases hp.symm.trans hr
      · cases (ho t).symm.trans hx
    · intro s a s' hi ha he
      exact (hi.step ha he).1
  exact ⟨hs.running,fun a s' ha he => (hs.step ha he).2⟩

/-- The main thread alone. -/
def mainThread : Threads ℕ := ⟨fun _ => none,fun p => if p = 1 then .other else .absent,fun _ => none⟩

theorem init_mainThread : (threadsMachine ℕ).init mainThread := by
  refine ⟨fun _ => rfl,fun p => ?_,fun _ => rfl⟩
  by_cases hp : p = 1
  · exact .inr (if_pos hp)
  · exact .inl (if_neg hp)

/-- One Thread starts and stops another from a task, and the main thread destroys that one. -/
theorem current_task_queue_nested : ∃ s : Threads ℕ, (threadsMachine ℕ).Reachable SetterKept s ∧
    s.objects 1 = none ∧ s.phase 2 = .running 0 ∧ s.current 2 = some 0 ∧
    ∀ s', s.step (.quit 1 0) = some s' → s'.current 2 = some 0 := by
  have h : ((threadsMachine ℕ).run SetterKept mainThread
      [.construct 1 0 0, .start 1 0 (.created 2), .preRun 2, .preRun 2, .construct 2 1 0, .start 2 1 (.created 3),
        .preRun 3, .preRun 3, .quit 2 1, .finish 3, .join 2 1, .destroy 1 1]).any
      (fun s => decide (s.objects 1 = none ∧ s.phase 2 = .running 0)) = true := by decide +kernel
  obtain ⟨s,hs,hp⟩ := Machine.exists_reachable_of_run init_mainThread h
  obtain ⟨ho,hr⟩ := of_decide_eq_true hp
  obtain ⟨hrun,hstep⟩ := current_task_queue hs
  have hc := hrun 2 0 hr
  exact ⟨s,hs,ho,hr,hc,fun s' he => (hstep (.quit 1 0) s' trivial he 2 (.inr ⟨0,hr⟩)).trans hc⟩

/-- The second Run of a Thread has no current Thread, and a Thread destroyed from the task of another one
takes that one's away. -/
theorem current_task_queue_fails :
    (∃ s : Threads ℕ, (threadsMachine ℕ).Reachable Machine.Free s ∧ s.phase 3 = .running 0 ∧ s.current 3 = none) ∧
      ∃ s : Threads ℕ, (threadsMachine ℕ).Reachable Machine.Free s ∧ s.phase 2 = .running 0 ∧ s.current 2 = some 0 ∧
        ∃ s', s.step (.destroy 2 1) = some s' ∧ s'.current 2 = none := by
  have h₁ : ((threadsMachine ℕ).run Machine.Free mainThread
      [.construct 1 0 0, .start 1 0 (.created 2), .preRun 2, .preRun 2, .quit 1 0, .finish 2, .join 1 0, .restart 1 0,
        .start 1 0 (.created 3), .preRun 3, .preRun 3]).any
      (fun s => decide (s.phase 3 = .running 0 ∧ s.current 3 = none)) = true := by decide +kernel
  have h₂ : ((threadsMachine ℕ).run Machine.Free mainThread
      [.construct 1 0 0, .start 1 0 (.created 2), .preRun 2, .preRun 2, .construct 2 1 0, .start 2 1 (.created 3),
        .preRun 3, .preRun 3, .quit 2 1, .finish 3, .join 2 1]).any
      (fun s => decide (s.phase 2 = .running 0 ∧ s.current 2 = some 0) &&
        (s.step (.destroy 2 1)).any fun s' => decide (s'.current 2 = none)) = true := by decide +kernel
  obtain ⟨s,hs,hp⟩ := Machine.exists_reachable_of_run init_mainThread h₁
  obtain ⟨t,ht,hq⟩ := Machine.exists_reachable_of_run init_mainThread h₂
  obtain ⟨hq,hd⟩ := Bool.and_eq_true_iff.mp hq
  obtain ⟨t',he,hc⟩ := (Option.any_eq_true _ _).mp hd
  obtain ⟨hr,hcur⟩ := of_decide_eq_true hq
  exact ⟨⟨s,hs,of_decide_eq_true hp⟩,t,ht,hr,hcur,t',he,of_decide_eq_true hc⟩

end UServer.Concurrency
