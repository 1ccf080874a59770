import UServer.Library.History
import UServer.Net.LoopTurns

/-! Is Close in a handler the last that its OnEvent does? OnEvent goes on to its next conditional
with the bits of ff, whatever has become of the descriptor that they were reported for. -/
namespace UServer.Net
open Library

/-- Does the call run Close on the dispatcher? Create begins with it. -/
def Op.closes (p : Ptr) : Op → Bool
  | .close q => decide (q = p)
  | .create q _ _ _ _ => decide (q = p)
  | _ => false

/-- Does the step run Close on the dispatcher whose OnEvent is on the stack? -/
def Action.closesBusy (s : LoopState) : Action → Bool
  | .op o => s.control.busy.any fun p => o.closes p
  | _ => false

/-- Whether Close ran on the dispatcher since its OnEvent began, and what was emitted after that. -/
structure CloseRecord where
  closed : Bool
  late : List (Ptr × EventMask)

def CloseRecord.note (s : LoopState) (a : Action) (_ : LoopState) (g : CloseRecord) : CloseRecord where
  closed :=
    match a with
    | .next _ _ => false
    | _ => g.closed || a.closesBusy s
  late := if g.closed then (a.emits s).toList ++ g.late else g.late

/-- The loop with a record of the emissions that follow a Close in the same OnEvent. -/
def closeMachine : Machine (LoopState × CloseRecord) Action := loopMachine.recorded ⟨false,[]⟩ CloseRecord.note

/-- The signals that OnEvent has still to emit. -/
def Control.ahead : Control → List EventMask
  | .onEvent _ _ _ ff _ _ todo => todo.filter fun signal => has ff signal
  | _ => []

/-- Handlers close their own dispatcher only where OnEvent has nothing left to emit. -/
def ClosesLast (s : LoopState) (a : Action) : Prop := a.closesBusy s = true → s.control.ahead = []

instance (s : LoopState) (a : Action) : Decidable (ClosesLast s a) := inferInstanceAs (Decidable (_ → _))

theorem emits_ahead {s : LoopState} {a : Action} {p : Ptr} {signal : EventMask} (h : a.emits s = some (p,signal)) :
    signal ∈ s.control.ahead := by
  cases a with
  | advance =>
    unfold Action.emits at h
    dsimp only at h
    split at h
    · rename_i hc
      split at h
      · rename_i hsig
        cases h
        simp [hc, Control.ahead, hsig]
      · cases h
    · cases h
  | _ => cases h

/-- A step that is no new event leaves OnEvent no more to emit than before. -/
theorem loopStep_ahead {s t : LoopState} {a : Action} (h : loopStep s a = some t) (hn : s.control.ahead = [])
    (ha : ∀ so peek, a ≠ .next so peek) : t.control.ahead = [] := by
  cases a with
  | op o =>
    simp only [loopStep] at h
    split at h
    · cases h
      exact hn
    · cases h
  | report evs =>
    simp only [loopStep] at h
    split at h
    · split at h
      · cases h
        rfl
      · cases h
    · cases h
  | next so peek => exact absurd rfl (ha so peek)
  | advance =>
    simp only [loopStep] at h
    split at h
    · rename_i hc
      cases h
      rw [hc, Control.ahead, List.filter_eq_nil_iff] at hn
      exact List.filter_eq_nil_iff.mpr fun e he => hn e (List.mem_cons_of_mem _ he)
    · cases h
      rfl
    · cases h

/-- OnEvent by itself comes to whatever it has still to emit. -/
theorem reaches_late {s : LoopState} {g : CloseRecord} (hclosed : g.closed = true) (hn : s.control.ahead ≠ []) :
    ∃ r, closeMachine.Reaches Machine.Free (s,g) r ∧ r.2.late ≠ [] := by
  obtain ⟨w,control⟩ := s
  cases control with
  | idle => exact absurd rfl hn
  | batch rest => exact absurd rfl hn
  | onEvent rest key p ff err handler todo =>
    induction todo generalizing w handler g with
    | nil => exact absurd rfl hn
    | cons signal todo ih =>
      set t : LoopState := ⟨w.onEventStage p ff signal,.onEvent rest key p ff err (has ff signal) todo⟩ with ht
      set s : LoopState := ⟨w,.onEvent rest key p ff err handler (signal :: todo)⟩ with hs
      have hnext : closeMachine.Next Machine.Free (s,g) (t,g.note s .advance t) := ⟨.advance,trivial,rfl⟩
      cases hsig : has ff signal with
      | true =>
        refine ⟨_,.single hnext,?_⟩
        simp [CloseRecord.note, hclosed, Action.emits, hs, hsig]
      | false =>
        have hrest : t.control.ahead ≠ [] := by
          simpa [Control.ahead, hs, ht, hsig] using hn
        obtain ⟨r,hr,hlate⟩ := ih (g := g.note s .advance t) (by simp [CloseRecord.note, hclosed]) _ _ hrest
        exact ⟨r,.head hnext hr,hlate⟩

/-- Nothing was emitted late, and nothing will be. -/
def CloseFinal (s : LoopState) (g : CloseRecord) : Prop := g.late = [] ∧ (g.closed = true → s.control.ahead = [])

theorem CloseFinal.step {s t : LoopState} {g : CloseRecord} {a : Action} (h : CloseFinal s g) (ha : ClosesLast s a)
    (hstep : loopStep s a = some t) : CloseFinal t (g.note s a t) := by
  obtain ⟨hlate,hclosed⟩ := h
  refine ⟨?_,fun hc => ?_⟩
  · unfold CloseRecord.note
    dsimp only
    split
    · rename_i hg
      have hnone : a.emits s = none := by
        refine Option.eq_none_iff_forall_not_mem.mpr fun e he => ?_
        have hmem := emits_ahead he
        rw [hclosed hg] at hmem
        cases hmem
      rw [hnone, hlate]
      rfl
    · exact hlate
  · cases a with
    | next so peek => cases hc
    | _ =>
      refine loopStep_ahead hstep ?_ fun _ _ => nofun
      exact (Bool.or_eq_true_iff.mp hc).elim hclosed ha

theorem closesBusy_keeps_control {s t : LoopState} {a : Action} (ha : a.closesBusy s = true)
    (hstep : loopStep s a = some t) : t.control = s.control := by
  cases a with
  | op o =>
    simp only [loopStep] at hstep
    split at hstep
    · cases hstep
      rfl
    · cases hstep
  | _ => cases ha

/-- As long as handlers close their own dispatcher only where OnEvent has nothing left to emit, no OnEvent emits
anything after a Close; the first Close with a signal still ahead leads to its emission. -/
theorem close_is_final {q : LoopState × CloseRecord} (h : closeMachine.Reachable (fun q a => ClosesLast q.1 a) q) :
    q.2.late = [] ∧ ∀ a r, closeMachine.step q a = some r → ¬ClosesLast q.1 a →
      ∃ r', closeMachine.Reaches Machine.Free r r' ∧ r'.2.late ≠ [] := by
  have hi : CloseFinal q.1 q.2 := by
    refine h.rule (I := fun q => CloseFinal q.1 q.2) ?_ ?_
    · rintro ⟨s,g⟩ ⟨-,rfl⟩
      exact ⟨rfl,nofun⟩
    · rintro ⟨s,g⟩ a r ⟨hlate,hclosed⟩ ha hstep
      obtain ⟨hstep,hg⟩ := Machine.recorded_step hstep
      rw [hg]
      exact CloseFinal.step ⟨hlate,hclosed⟩ ha hstep
  refine ⟨hi.1,fun a r hstep ha => ?_⟩
  obtain ⟨hstep,hg⟩ := Machine.recorded_step hstep
  obtain ⟨hcloses,hahead⟩ := Classical.not_imp.mp ha
  refine reaches_late ?_ ?_
  · rw [hg]
    cases a with
    | next so peek => cases hcloses
    | _ => exact Bool.or_eq_true_iff.mpr (.inr hcloses)
  · rw [closesBusy_keeps_control hcloses hstep]
    exact hahead

/-- A connected socket is reported readable and writable, and its read handler runs. -/
private def readHandler : List Action :=
  [.op (.createSocket 1 2 .stream (.ok 5) none), .op (.connect 1 2 (.ok 6) none (.ok ())),
    .report [(5,epollIn ||| epollOut)], .next (.ok 0) (.ok 1), .advance, .advance, .advance]

private theorem closeMachine_init : closeMachine.init (⟨World.start 0 3,.idle⟩,⟨false,[]⟩) :=
  ⟨init_start 0 (by decide),rfl⟩

/-- A handler that closes its socket after the last signal. -/
theorem close_is_final_last : ∃ q : LoopState × CloseRecord, q.2.closed = true ∧ q.1.control.busy = some 1 ∧
    q.2.late = [] := by
  have h : (closeMachine.run (fun q a => ClosesLast q.1 a) (⟨World.start 0 3,.idle⟩,⟨false,[]⟩)
      (readHandler ++ [.advance, .op (.close 1), .advance])).any (fun q =>
        q.2.closed && decide (q.1.control.busy = some 1)) = true := by
    decide +kernel
  obtain ⟨q,hq,hp⟩ := Machine.exists_reachable_of_run closeMachine_init h
  obtain ⟨hc,hb⟩ := Bool.and_eq_true_iff.mp hp
  exact ⟨q,hc,of_decide_eq_true hb,(close_is_final hq).1⟩

/-- The read handler closes the socket and connects it again, and the write event of the old descriptor
is delivered to the new connection. -/
theorem close_not_final : ¬∀ q : LoopState × CloseRecord, closeMachine.Reachable Machine.Free q → q.2.late = [] := by
  intro hall
  have h : (closeMachine.run Machine.Free (⟨World.start 0 3,.idle⟩,⟨false,[]⟩) (readHandler ++
      [.op (.close 1), .op (.connect 1 2 (.ok 6) none (.error einprogress)), .advance])).any (fun q =>
        decide (q.2.late = [(1,deWrite)])) = true := by
    decide +kernel
  obtain ⟨q,hq,hp⟩ := Machine.exists_reachable_of_run closeMachine_init h
  have hlate := of_decide_eq_true hp
  rw [hall q hq] at hlate
  cases hlate

end UServer.Net
