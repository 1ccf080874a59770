import UServer.Concurrency.GetCalls

/-! The timeout of the first epoll_wait of a Wait, from the heap that Get looked at to the int the kernel gets:
exact where the earliest delayed task is less than 2^31 ms away, and Get has no timeout of its own otherwise. -/
namespace UServer.Concurrency
open Library

/-- The time from a clock reading to the earliest task of a heap. -/
def earliest (now : ℤ) : List DelayedMessage → ℤ
  | [] => kForever
  | m :: _ => timeDiff m.runTimeMs now

/-- A timeout that neither oversleeps the tasks that Get saw nor differs from the duration it was made from. -/
structure InTime (f : GetFrame) (maxWaitDuration timeout : ℤ) : Prop where
  endless : timeout < 0 → f.cmsWait = kForever ∧ f.seen = []
  bounded : ¬ (f.cmsWait = kForever ∧ f.seen = []) → 0 ≤ timeout ∧ ∀ m ∈ f.seen, timeout ≤ m.runTimeMs - f.msCurrent
  exact : timeout = maxWaitDuration

/-- What ProcessDelayedMessage leaves is not due, and it returns the time to the earliest. -/
structure Ahead (now next : ℤ) (items : List DelayedMessage) : Prop where
  eq : next = earliest now items
  positive : ∀ m ∈ items, 0 < next
  least : ∀ m ∈ items, next ≤ m.runTimeMs - now

theorem moveDue_ahead (now : ℤ) (messages : List Task) (items : List DelayedMessage)
    (h : items.Pairwise DelayedMessage.Before) :
    Ahead now (TaskQueue.moveDue now messages items h).1 (TaskQueue.moveDue now messages items h).2.2.items := by
  induction items generalizing messages with
  | nil => exact ⟨rfl,fun _ hm => absurd hm List.not_mem_nil,fun _ hm => absurd hm List.not_mem_nil⟩
  | cons m rest ih =>
    unfold TaskQueue.moveDue
    split
    · rename_i hm
      refine ⟨rfl,fun _ _ => sub_pos.mpr hm,fun x hx => ?_⟩
      rcases List.mem_cons.mp hx with rfl | hx
      · exact le_rfl
      · have hb := DelayedMessage.before_iff.mp ((List.pairwise_cons.mp h).1 x hx)
        simp only [timeDiff]
        omega
    · exact ih _ _

namespace GetFrame
variable {f : GetFrame}

/-- With a timeout of its own Get waits no longer than that, nor than to the earliest task. -/
theorem cmsNext_bounds {next : ℤ} (ha : Ahead f.msCurrent next f.seen) (hc : f.cmsWait ≠ kForever)
    (hi : f.cmsWait < 2 ^ 31) (he : 0 ≤ f.cmsElapsed) :
    0 ≤ f.cmsNext next ∧ f.cmsNext next < 2 ^ 31 ∧ ∀ m ∈ f.seen, f.cmsNext next ≤ m.runTimeMs - f.msCurrent := by
  have hmax : max 0 (f.cmsWait - f.cmsElapsed) < 2 ^ 31 := max_lt (by norm_num) (by omega)
  have h0 : 0 ≤ max 0 (f.cmsWait - f.cmsElapsed) := le_max_left _ _
  simp only [GetFrame.cmsNext, if_neg hc]
  cases hs : f.seen with
  | nil =>
    have hn : next = kForever := by rw [ha.eq, hs, earliest]
    rw [if_neg fun h => h.1 hn]
    exact ⟨h0,hmax,fun _ hm => absurd hm List.not_mem_nil⟩
  | cons m rest =>
    have hp : 0 < next := ha.positive m (by simp [hs])
    rw [← hs]
    split
    · rename_i hlt
      exact ⟨hp.le,hlt.2.trans hmax,ha.least⟩
    · rename_i hlt
      have hk : next ≠ kForever := by
        rw [kForever]
        omega
      have hle : max 0 (f.cmsWait - f.cmsElapsed) ≤ next := not_lt.mp fun h => hlt ⟨hk,h⟩
      exact ⟨h0,hmax,fun x hx => hle.trans (ha.least x hx)⟩

/-- WaitEpoll starts with the duration it was given as an int. -/
theorem waitEpoll_msWait (d now : ℤ) : (f.waitEpoll d now).msWait = toInt d := by
  rw [GetFrame.waitEpoll, cmsWait_eq]
  split
  · rfl
  · rename_i h
    exact (not_not.mp h).symm

/-- The timeout is in time exactly if it is the duration. -/
theorem inTime_iff {d now next : ℤ} (ha : Ahead f.msCurrent next f.seen) (hd : d = f.cmsNext next)
    (hi : f.cmsWait < 2 ^ 31) (he : 0 ≤ f.cmsElapsed) : InTime f d (toInt (f.waitEpoll d now).msWait) ↔
      (f.cmsWait = kForever → earliest f.msCurrent f.seen < 2 ^ 31) := by
  rw [waitEpoll_msWait, toInt_eq (int_bounds d)]
  by_cases hc : f.cmsWait = kForever
  · rw [GetFrame.cmsNext, if_pos hc, ha.eq] at hd
    rw [← hd]
    constructor
    · intro h _
      exact h.exact ▸ (int_bounds d).2
    · intro h
      cases hs : f.seen with
      | nil =>
        have hk : d = kForever := by rw [hd, hs, earliest]
        rw [hk]
        exact ⟨fun _ => ⟨hc,hs⟩,fun hn => absurd ⟨hc,hs⟩ hn,by decide⟩
      | cons m rest =>
        have hp : 0 < d := by
          rw [hd, ← ha.eq]
          exact ha.positive m (by simp [hs])
        have hexact : toInt d = d := toInt_eq ⟨by omega,h hc⟩
        rw [hexact]
        refine ⟨fun hn => by omega,fun _ => ⟨hp.le,fun x hx => ?_⟩,rfl⟩
        rw [hd, ← ha.eq]
        exact ha.least x hx
  · obtain ⟨h0,hlt,hle⟩ := cmsNext_bounds ha hc hi he
    rw [← hd] at h0 hlt hle
    have hexact : toInt d = d := toInt_eq ⟨by omega,hlt⟩
    rw [hexact]
    refine iff_of_true ⟨fun hn => by omega,fun _ => ⟨h0,hle⟩,rfl⟩ fun h => absurd h hc

end GetFrame

/-- Where Get is about to wait, it knows how far the tasks it saw are ahead. -/
structure LookInvariant {ι : Type*} (s : State ι) : Prop where
  check : ∀ f next, s.loop = .check f next → Ahead f.msCurrent next f.seen
  wait : ∀ f d, s.loop = .wait f d → ∃ next, Ahead f.msCurrent next f.seen ∧ d = f.cmsNext next

section
variable {ι : Type*} [DecidableEq ι] {s t : State ι} {a : Action ι}

theorem LookInvariant.of_turn (h : LookInvariant s) (ht : Turn s a t) : LookInvariant t := by
  constructor
  · intro f next hl
    cases ht with
    | move hm => cases hm <;> cases hl
    | @look f' hf hm =>
      cases hl
      exact moveDue_ahead f'.msCurrent s.queue.messages s.queue.delayed.items s.queue.delayed.ordered
    | give | enter | onEvent | reset => cases hl
    | _ => exact h.check f next hl
  · intro f d hl
    cases ht with
    | move hm =>
      cases hm with
      | wait hc =>
        cases hl
        exact ⟨_,h.check _ _ hc,rfl⟩
      | _ => cases hl
    | give | look | enter | onEvent | reset => cases hl
    | _ => exact h.wait f d hl

theorem lookInvariant (h : (threadMachine ι).Reachable Machine.Free s) : LookInvariant s := by
  refine h.rule ?_ fun u a v hu _ hv => hu.of_turn (step_turn hv)
  rintro u ⟨nanos,rfl | rfl⟩
  · constructor <;> simp [State.start]
  · constructor <;> simp [State.start]

theorem waitEpoll_of_step {f : GetFrame} {d : ℤ} {w : EpollFrame} (hl : s.loop = .wait f d)
    (he : s.step .loop = some t) (hw : t.loop = .test w) : w = f.waitEpoll d s.timeMillis := by
  cases hs : s.ss with
  | physical g flag =>
    simp only [State.step, State.loopStep, hl, hs, Option.some_inj] at he
    cases (congrArg State.loop he).trans hw
    rfl
  | null e =>
    simp only [State.step, State.loopStep, hl, hs, Option.some_inj] at he
    cases (congrArg State.loop he).trans hw

/-- In every run the first timeout of a Wait is in time exactly where Get has a timeout, or saw no delayed task or
one less than 2^31 ms away. -/
theorem first_timeout_iff {f : GetFrame} {d : ℤ} {w : EpollFrame} (h : (threadMachine ι).Reachable Machine.Free s)
    (hl : s.loop = .wait f d) (he : s.step .loop = some t) (hw : t.loop = .test w) :
    InTime f d (toInt w.msWait) ↔ (f.cmsWait = kForever → earliest f.msCurrent f.seen < 2 ^ 31) := by
  obtain ⟨next,ha,hd⟩ := (lookInvariant h).wait f d hl
  have hc := CallInvariant.of_reachable h
  have hf : s.loop.frame = some f := by rw [hl]; rfl
  rw [waitEpoll_of_step hl he hw]
  exact f.inTime_iff ha hd (hc.frame f hf).int.2 (hc.clock f hf).1

/-- The heap that the samples wait with: one task, posted with the given delay a millisecond after the clock reading. -/
def late (delayMs : ℤ) : GetFrame := ⟨⟨kForever,0⟩,kForever,0,0,0,[⟨delayMs,1 + delayMs,1,⟨true,0,some (1 + delayMs)⟩⟩]⟩

/-- Posts of a delayed task between the clock reading of Get and the lock. -/
def lateRun (delayMs : Int32) : List (Action ℕ) :=
  [.processMessages (-1), .loop, .tick 1000000, .post 0 (.delayed true delayMs), .poster 0, .poster 0, .poster 0,
    .loop, .loop]

/-- A run to the Wait of Get, and its step into WaitEpoll. -/
private theorem late_reachable (delayMs : Int32) (d : ℤ) (w : EpollFrame)
    (h : ((threadMachine ℕ).run Machine.Free (.start (.physical .fresh false) 0) (lateRun delayMs)).any
      (fun s => decide (s.loop = .wait (late delayMs.toInt) d ∧
        (s.step .loop).any (fun t => decide (t.loop = .test w)) = true)) = true) :
    ∃ s t : State ℕ, (threadMachine ℕ).Reachable Machine.Free s ∧ s.loop = .wait (late delayMs.toInt) d ∧
      s.step .loop = some t ∧ t.loop = .test w := by
  obtain ⟨s,hs,hp⟩ := Machine.exists_reachable_of_run (init_start 0) h
  obtain ⟨hl,ht⟩ := of_decide_eq_true hp
  obtain ⟨t,he,hw⟩ := (Option.any_eq_true _ _).mp ht
  exact ⟨s,t,hs,hl,he,of_decide_eq_true hw⟩

theorem first_timeout_five : InTime (late 5) 6 6 := by
  obtain ⟨s,t,hs,hl,he,hw⟩ := late_reachable 5 6 ⟨late 5,6,6,7⟩ (by decide +kernel)
  exact (first_timeout_iff hs hl he hw).mpr fun _ => by decide

/-- With the longest delay the timeout is negative, which epoll_wait takes as none. -/
theorem overslept : ¬∀ (s t : State ℕ) (f : GetFrame) (d : ℤ) (w : EpollFrame),
    (threadMachine ℕ).Reachable Machine.Free s → s.loop = .wait f d → s.step .loop = some t → t.loop = .test w →
      InTime f d (toInt w.msWait) := by
  intro hall
  obtain ⟨s,t,hs,hl,he,hw⟩ := late_reachable 2147483647 2147483648
    ⟨late 2147483647,-2147483648,-2147483648,-2147483647⟩ (by decide +kernel)
  have hn := ((hall s t _ _ _ hs hl he hw).endless (by decide)).2
  cases hn

end
end UServer.Concurrency
