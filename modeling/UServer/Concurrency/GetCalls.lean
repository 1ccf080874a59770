import UServer.Concurrency.TaskOrder

/-! The calls of Get: what each keeps of the call of ProcessMessages it is part of, and what its locals
are from one look at the queue to the next. -/
namespace UServer.Concurrency
open Library

theorem int_bounds (n : ℤ) : -2 ^ 31 ≤ toInt n ∧ toInt n < 2 ^ 31 := ⟨Int32.le_toInt _,Int32.toInt_lt _⟩

theorem toInt_eq {n : ℤ} (h : -2 ^ 31 ≤ n ∧ n < 2 ^ 31) : toInt n = n := by
  rw [toInt, Int32.toInt_ofInt]
  exact Int.bmod_eq_of_le (by norm_num at *; exact h.1) (by norm_num at *; exact h.2)

/-- Wait passes its duration on as it is, for ever included. -/
theorem cmsWait_eq (d : ℤ) : (if d = kForever then -1 else d) = d := by
  split
  · rename_i h
    rw [h, kForever]
  · rfl

/-- The Get that the loop thread is in. -/
def LoopPc.frame : LoopPc → Option GetFrame
  | .take f | .check f _ | .wait f _ | .park f _ | .parked f _ | .waited f _ => some f
  | .test w | .epoll w | .dispatch w _ | .elapse w => some w.get
  | .outside _ | .call _ _ | .got _ _ | .run _ _ | .exited => none

/-- What ProcessMessages passes to Get: an int, and no timeout where it has none itself. -/
structure Fits (p : ProcessFrame) (cmsWait : ℤ) : Prop where
  int : -2 ^ 31 ≤ cmsWait ∧ cmsWait < 2 ^ 31
  forever : p.cms = kForever → cmsWait = kForever

/-- A Get keeps what it was called with, and measures the time since then. -/
structure GetFrame.Continues (f' f : GetFrame) (now : ℤ) : Prop where
  process : f.process = f'.process
  cmsWait : f.cmsWait = f'.cmsWait
  msStart : f.msStart = f'.msStart
  elapsed : f.cmsElapsed = f'.cmsElapsed ∨ f.cmsElapsed = timeDiff now f'.msStart

/-- The time left after a Dispatch is an int that is not negative, or there is no timeout. -/
theorem ProcessFrame.fits_of_next {p q : ProcessFrame} {now c : ℤ} (h : q.next now = .call p c) : Fits p c := by
  rw [ProcessFrame.next] at h
  split at h
  · rename_i hq
    split at h
    · cases h
    · cases h
      exact ⟨int_bounds _,fun hp => absurd hp hq⟩
  · rename_i hq
    cases h
    rw [not_not.mp hq]
    exact ⟨by decide,fun _ => rfl⟩

theorem GetFrame.Continues.refl (f : GetFrame) (now : ℤ) : f.Continues f now := ⟨rfl,rfl,rfl,.inl rfl⟩

section
variable {ι : Type*} {s t : State ι} {pc : LoopPc} {f : GetFrame}

/-- A move is into a Get that begins, or within the one under way. -/
theorem LoopMove.frame (h : LoopMove s pc) (hf : pc.frame = some f) :
    (∃ p c, s.loop = .call p c ∧ f = ⟨p,c,s.timeMillis,s.timeMillis,0,[]⟩) ∨
      ∃ f', s.loop.frame = some f' ∧ f'.Continues f s.timeMillis := by
  cases h with
  | call h =>
    cases hf
    exact .inl ⟨_,_,h,rfl⟩
  | @lookAgain f' h =>
    cases hf
    exact .inr ⟨f',by rw [h]; rfl,rfl,rfl,rfl,.inr rfl⟩
  | wait h | park h | parked h | rejected h | unpark h | gaveUp h | test h | leave h | interrupted h | answered h | ready h
    | dispatched h | elapsed h | again h =>
    cases hf
    exact .inr ⟨_,by rw [h]; rfl,.refl _ _⟩
  | _ => cases hf

variable [DecidableEq ι] {a : Action ι}

theorem Turn.frame (h : Turn s a t) (hf : t.loop.frame = some f) :
    (∃ p c, s.loop = .call p c ∧ f = ⟨p,c,s.timeMillis,s.timeMillis,0,[]⟩) ∨
      ∃ f', s.loop.frame = some f' ∧ f'.Continues f s.timeMillis := by
  cases h with
  | move h => exact h.frame hf
  | give h => cases hf
  | @look f' h =>
    cases hf
    exact .inr ⟨f',by rw [h]; rfl,rfl,rfl,rfl,.inl rfl⟩
  | @enter f' d g flag h hs =>
    rw [LoopPc.frame, GetFrame.waitEpoll_get] at hf
    cases hf
    exact .inr ⟨f,by rw [h]; rfl,.refl _ _⟩
  | onEvent h | reset h =>
    cases hf
    exact .inr ⟨_,by rw [h]; rfl,.refl _ _⟩
  | _ => exact .inr ⟨f,hf,.refl _ _⟩

/-- ProcessMessages calls Get where it is entered, and after a Dispatch that leaves time. -/
theorem fits_of_step (h : s.step a = some t) (hs : ∀ p c, s.loop = .call p c → Fits p c) {p : ProcessFrame} {c : ℤ}
    (hl : t.loop = .call p c) : Fits p c := by
  by_cases ha : a = .loop
  · subst ha
    cases step_turn h with
    | move hm =>
      cases hm with
      | processMessages hr => simp [State.step, State.loopStep, hr] at h
      | next hr =>
        simp only [State.step, State.loopStep, hr, Option.some_inj] at h
        exact ProcessFrame.fits_of_next ((congrArg State.loop h).trans hl)
      | _ => cases hl
    | give | look | enter | onEvent | reset => cases hl
    | _ => exact hs p c hl
  · have hp := (step_aside ha h).1
    generalize t.loop = pc at hp hl
    cases hp with
    | stay => exact hs p c hl
    | enter hr cms msEnd =>
      cases hl
      exact ⟨⟨cms.le_toInt,cms.toInt_lt⟩,id⟩
    | _ => cases hl

/-- Every call of Get, and the Get under way, fits the ProcessMessages it is part of. -/
structure CallInvariant (s : State ι) : Prop where
  call : ∀ p c, s.loop = .call p c → Fits p c
  frame : ∀ f, s.loop.frame = some f → Fits f.process f.cmsWait
  clock : ∀ f, s.loop.frame = some f → 0 ≤ f.cmsElapsed ∧ f.msStart ≤ s.timeMillis

namespace CallInvariant

theorem of_step (h : CallInvariant s) (he : s.step a = some t) : CallInvariant t where
  call _ _ hl := fits_of_step he h.call hl
  frame f hf := by
    rcases (step_turn he).frame hf with ⟨p,c,hl,rfl⟩ | ⟨f',hf',hc⟩
    · exact h.call p c hl
    · rw [hc.process, hc.cmsWait]
      exact h.frame f' hf'
  clock f hf := by
    have hn := (step_turn he).timeMillis_le
    rcases (step_turn he).frame hf with ⟨p,c,hl,rfl⟩ | ⟨f',hf',hc⟩
    · exact ⟨le_rfl,hn⟩
    · obtain ⟨h0,hm⟩ := h.clock f' hf'
      rw [hc.msStart]
      refine ⟨?_,hm.trans hn⟩
      rcases hc.elapsed with h' | h'
      · exact h' ▸ h0
      · exact h' ▸ sub_nonneg.mpr hm

theorem of_init (h : (threadMachine ι).init s) : CallInvariant s := by
  obtain ⟨nanos,rfl | rfl⟩ := h
  · constructor <;> simp [State.start, LoopPc.frame]
  · constructor <;> simp [State.start, LoopPc.frame]

theorem of_reachable {ok : State ι → Action ι → Prop} (h : (threadMachine ι).Reachable ok s) : CallInvariant s :=
  h.rule (fun _ => of_init) fun _ _ _ hu _ hv => hu.of_step hv

end CallInvariant
end
end UServer.Concurrency
