import UServer.Concurrency.ThreadObject
import UServer.Library.Runs

/-! The life of one Thread as its owner drives it, with the pthread calls that Start and Join make on
whatever thread_ holds: pthread_create and pthread_join alternate where thread_ starts as zero. -/
namespace UServer.Concurrency
open Library

/-- What the owner of one Thread does to it. The value is what memory held at thread_. -/
inductive OwnerAction where
  | construct (thread : Handle)
  | start (c : CreateOutcome)
  | join
  | stop
  | restart
  | destroy
  deriving DecidableEq

/-- What the record of one Thread's life keeps, newest first: the calls of Start, with what became of the
pthread_create in them if there was one, those of pthread_join, and the end. -/
inductive LifeEvent where
  | started (h : Handle)
  | failed
  | refused
  | joined (h : Handle)
  | destroyed
  deriving DecidableEq

structure Life where
  object : Option (ThreadObject Unit)
  log : List LifeEvent
  deriving DecidableEq

namespace Life

def startEvent (x : ThreadObject Unit) (c : CreateOutcome) : LifeEvent :=
  if Thread.isRunning x then .refused
  else match c with
    | .created h => .started h
    | .failed _ => .failed

/-- The call of pthread_join that Join makes. -/
def joinEvents (x : ThreadObject Unit) : List LifeEvent := if Thread.isRunning x then [.joined x.thread] else []

/-- The object is constructed once, and a thread created never has the handle zero. -/
def step (s : Life) : OwnerAction → Option Life
  | .construct thread => if s.object = none ∧ s.log = [] then some { s with object := some (Thread.construct thread) } else none
  | .start c =>
    if c = .created 0 then none
    else s.object.map fun x => ⟨some (Thread.start x c).1,startEvent x c :: s.log⟩
  | .join => s.object.map fun x => ⟨some (Thread.join x),joinEvents x ++ s.log⟩
  | .stop => s.object.map fun x => ⟨some (Thread.stop x),joinEvents (Thread.quit x) ++ s.log⟩
  | .restart => s.object.map fun x => ⟨some (Thread.restart x),s.log⟩
  | .destroy => s.object.map fun x => ⟨none,.destroyed :: (joinEvents (Thread.quit x) ++ s.log)⟩

end Life

def lifeMachine : Machine Life OwnerAction where
  init s := s = ⟨none,[]⟩
  step := Life.step

/-- The handle of the thread that was created and not joined yet. -/
def unjoined : List LifeEvent → Option Handle
  | [] => none
  | .started h :: _ => some h
  | .joined _ :: _ => none
  | .failed :: es | .refused :: es | .destroyed :: es => unjoined es

/-- pthread_join gets the one handle that pthread_create stored and was not joined, Start calls pthread_create
exactly when there is none, and none is left at the end. -/
def Lawful : List LifeEvent → Prop
  | [] => True
  | .started _ :: es | .failed :: es | .destroyed :: es => unjoined es = none ∧ Lawful es
  | .refused :: es => (unjoined es).isSome ∧ Lawful es
  | .joined h :: es => unjoined es = some h ∧ Lawful es

/-- Memory held zero at thread_ before construction, and a pthread_create that fails leaves zero. -/
def LeavesZero (_ : Life) (a : OwnerAction) : Prop :=
  match a with
  | .construct thread => thread = 0
  | .start (.failed left) => left = 0
  | _ => True

instance (s : Life) (a : OwnerAction) : Decidable (LeavesZero s a) := by
  unfold LeavesZero
  split <;> infer_instance

namespace Life

/-- thread_ names the thread to join, if there is one, and is zero otherwise. -/
structure Tracked (s : Life) : Prop where
  lawful : Lawful s.log
  gone : s.object = none → unjoined s.log = none
  thread : ∀ x, s.object = some x → unjoined s.log = if x.thread = 0 then none else some x.thread

namespace Tracked
variable {s t : Life} {x : ThreadObject Unit}

/-- Join calls pthread_join on the handle to be joined, and leaves none. -/
theorem joined (h : s.Tracked) (hx : s.object = some x) :
    Lawful (joinEvents x ++ s.log) ∧ unjoined (joinEvents x ++ s.log) = none := by
  have hu := h.thread x hx
  rw [joinEvents, Thread.isRunning]
  by_cases hz : x.thread = 0
  · rw [if_pos hz] at hu
    simp [hz, h.lawful, hu]
  · rw [if_neg hz] at hu
    simp [hz, h.lawful, hu, Lawful, unjoined]

theorem thread_join : (Thread.join x).thread = 0 := by
  rw [Thread.join, Thread.isRunning]
  by_cases hz : x.thread = 0
  · simp [hz]
  · simp [hz]

/-- A live object is tracked when thread_ names the thread to join. -/
theorem of_object {log : List LifeEvent} (hl : Lawful log)
    (hu : unjoined log = if x.thread = 0 then none else some x.thread) : Life.Tracked ⟨some x,log⟩ := by
  refine ⟨hl,fun hx => ?_,fun y hy => ?_⟩
  · cases hx
  · cases hy
    exact hu

theorem step (h : s.Tracked) {a : OwnerAction} (ha : LeavesZero s a) (he : s.step a = some t) : t.Tracked := by
  cases a with
  | construct thread =>
    obtain ⟨⟨ho,hl⟩,he⟩ := Option.ite_none_right_eq_some.mp he
    cases he
    exact of_object h.lawful ((h.gone ho).trans (if_pos ha).symm)
  | start c =>
    obtain ⟨hc,he⟩ := Option.ite_none_left_eq_some.mp he
    obtain ⟨x,hx,rfl⟩ := Option.map_eq_some_iff.mp he
    have hu := h.thread x hx
    by_cases hz : x.thread = 0
    · rw [if_pos hz] at hu
      cases c with
      | created p =>
        have hp : p ≠ 0 := fun hp => hc (by rw [hp])
        simp only [Thread.start, startEvent, Thread.isRunning, hz]
        exact of_object ⟨hu,h.lawful⟩ (if_neg hp).symm
      | failed left =>
        have hl : left = 0 := ha
        simp only [Thread.start, startEvent, Thread.isRunning, hz]
        exact of_object ⟨hu,h.lawful⟩ (hu.trans (if_pos hl).symm)
    · have hr : Thread.isRunning x = true := by simpa [Thread.isRunning] using hz
      simp only [Thread.start, startEvent, hr, if_true]
      rw [if_neg hz] at hu
      exact of_object ⟨by rw [hu]; rfl,h.lawful⟩ (hu.trans (if_neg hz).symm)
  | join =>
    obtain ⟨x,hx,rfl⟩ := Option.map_eq_some_iff.mp he
    obtain ⟨hl,hu⟩ := h.joined hx
    exact of_object hl (hu.trans (if_pos thread_join).symm)
  | stop =>
    obtain ⟨x,hx,rfl⟩ := Option.map_eq_some_iff.mp he
    obtain ⟨hl,hu⟩ := h.joined hx
    exact of_object hl (hu.trans (if_pos thread_join).symm)
  | restart =>
    obtain ⟨x,hx,rfl⟩ := Option.map_eq_some_iff.mp he
    exact of_object h.lawful (h.thread x hx)
  | destroy =>
    obtain ⟨x,hx,rfl⟩ := Option.map_eq_some_iff.mp he
    obtain ⟨hl,hu⟩ := h.joined hx
    refine ⟨⟨hu,hl⟩,fun _ => hu,fun y hy => ?_⟩
    cases hy

end Tracked
end Life

/-- In every run in which memory holds zero where thread_ is not set, a Thread joins each pthread it created
exactly once, and creates one exactly when there is none to join. -/
theorem thread_lifecycle {s : Life} (h : lifeMachine.Reachable LeavesZero s) : Lawful s.log := by
  have ht : s.Tracked := by
    apply h.rule
    · intro s hs
      cases hs
      exact ⟨trivial,fun _ => rfl,nofun⟩
    · intro s a t hi ha he
      exact hi.step ha he
  exact ht.lawful

/-- Start twice, stop, restart, a failing pthread_create, start again and destroy. -/
theorem thread_lifecycle_twice : ∃ s, lifeMachine.Reachable LeavesZero s ∧
    s.log = [.destroyed,.joined 9,.started 9,.failed,.joined 7,.refused,.started 7] ∧ Lawful s.log := by
  have h : (lifeMachine.run LeavesZero ⟨none,[]⟩
      [.construct 0, .start (.created 7), .start (.created 8), .stop, .restart, .start (.failed 0), .start (.created 9),
        .destroy]).any (fun s => decide (s.log = [.destroyed,.joined 9,.started 9,.failed,.joined 7,.refused,.started 7])) =
      true := by decide +kernel
  obtain ⟨s,hs,hp⟩ := Machine.exists_reachable_of_run rfl h
  exact ⟨s,hs,of_decide_eq_true hp,thread_lifecycle hs⟩

/-- Memory held one where the object was built: Start refuses and Stop joins a thread that never was. So does
Stop after a pthread_create that failed and left one. -/
theorem thread_lifecycle_fails :
    (∃ s, lifeMachine.Reachable Machine.Free s ∧ s.log = [.joined 1,.refused] ∧ ¬ Lawful s.log) ∧
      ∃ s, lifeMachine.Reachable Machine.Free s ∧ s.log = [.joined 1,.failed] ∧ ¬ Lawful s.log := by
  have h₁ : (lifeMachine.run Machine.Free ⟨none,[]⟩ [.construct 1, .start (.created 7), .stop]).any
      (fun s => decide (s.log = [.joined 1,.refused])) = true := by decide +kernel
  have h₂ : (lifeMachine.run Machine.Free ⟨none,[]⟩ [.construct 0, .start (.failed 1), .stop]).any
      (fun s => decide (s.log = [.joined 1,.failed])) = true := by decide +kernel
  obtain ⟨s,hs,hp⟩ := Machine.exists_reachable_of_run rfl h₁
  obtain ⟨t,ht,hq⟩ := Machine.exists_reachable_of_run rfl h₂
  refine ⟨⟨s,hs,of_decide_eq_true hp,?_⟩,t,ht,of_decide_eq_true hq,?_⟩
  · rw [of_decide_eq_true hp]
    simp [Lawful, unjoined]
  · rw [of_decide_eq_true hq]
    simp [Lawful, unjoined]

end UServer.Concurrency
