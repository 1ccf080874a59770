import UServer.Net.ServerMutex

/-! A dispatcher that was removed: until it is added again the loop does not come to it, and where another thread
removed it the loop is not with it when Remove returns. -/
namespace UServer.Net
open Library

namespace SharedServer
variable {ι : Type*} [DecidableEq ι] {loop i : ι} {s t : SharedServer ι} {p : Ptr}

/-- No call of Add puts the dispatcher in. -/
def NoAdd (p : Ptr) (s : SharedServer ι) : ServerAction ι → Prop
  | .go i => s.calls i ≠ some (.add p,.testing)
  | _ => True

instance (p : Ptr) (s : SharedServer ι) : DecidablePred (NoAdd p s)
  | .go _ => inferInstanceAs (Decidable (_ ≠ _))
  | .call _ _ | .report _ | .lock | .next | .handled => .isTrue trivial

/-- Neither map has the dispatcher, and no call of Add is putting it in. -/
structure Gone (p : Ptr) (s : SharedServer ι) : Prop where
  absent : s.server.keyByDispatcher p = none
  keyless : ∀ key, s.server.dispatcherByKey key ≠ some p
  adding : ∀ i key, s.calls i ≠ some (.add p,.between key)

theorem Gone.goto (h : Gone p s) {server : PhysicalSocketServer} {mutex : RecursiveLock ι}
    {c : Option (ServerCall × CallPc)} (ha : server.keyByDispatcher p = none)
    (hk : ∀ key, server.dispatcherByKey key ≠ some p) (hc : ∀ key, c ≠ some (.add p,.between key)) :
    Gone p { s.goto i c with server := server, mutex := mutex } where
  absent := ha
  keyless := hk
  adding j key := by
    by_cases hj : j = i
    · simpa [SharedServer.goto, hj] using hc key
    · simpa [SharedServer.goto, hj] using h.adding j key

theorem Gone.stepCall (h : Gone p s) (hn : s.calls i ≠ some (.add p,.testing)) (he : s.stepCall i = some t) :
    Gone p t := by
  unfold SharedServer.stepCall at he
  split at he
  · cases he
  · obtain ⟨m,-,rfl⟩ := Option.map_eq_some_iff.mp he
    exact h.goto h.absent h.keyless (by simp)
  · rename_i c hi
    cases he
    cases c with
    | add q =>
      have hq : q ≠ p := by
        rintro rfl
        exact hn hi
      simp only [test]
      split
      · exact h.goto h.absent h.keyless (by simp)
      · refine h.goto h.absent (fun key hk => ?_) fun key hc => ?_
        · exact (emplace_eq_some hk).elim (h.keyless key) fun hkq => hq hkq.2.symm
        · cases hc
          exact hq rfl
    | remove q =>
      simp only [test]
      split
      · exact h.goto h.absent h.keyless (by simp)
      · refine h.goto ?_ h.keyless (by simp)
        by_cases hq : p = q
        · rw [hq]
          exact Function.update_self ..
        · exact (Function.update_of_ne hq _ _).trans h.absent
    | update q => exact h.goto h.absent h.keyless (by simp)
  · rename_i c key hi
    cases he
    cases c with
    | add q =>
      have hq : q ≠ p := by
        rintro rfl
        exact h.adding i key hi
      refine h.goto ?_ h.keyless (by simp)
      by_contra hne
      obtain ⟨k,hk⟩ := Option.ne_none_iff_exists'.mp hne
      rcases emplace_eq_some hk with hk | ⟨hpq,-⟩
      · rw [h.absent] at hk
        cases hk
      · exact hq hpq.symm
    | remove q =>
      exact h.goto h.absent (fun k hk => h.keyless k (PhysicalSocketServer.dispatcherByKey_removeKey hk).2) (by simp)
    | update q => exact h.goto h.absent h.keyless (by simp)
  · cases he
    exact h.goto h.absent h.keyless (by simp)

/-- Until it is added again it stays gone, and the loop does not come to it. -/
theorem Gone.step (h : Gone p s) {a : ServerAction ι} (hn : NoAdd p s a) (he : s.step loop a = some t) :
    Gone p t ∧ ((∀ keys, s.round ≠ .handling keys p) → ∀ keys, t.round ≠ .handling keys p) := by
  cases a with
  | call i c =>
    obtain ⟨-,he⟩ := Option.ite_none_right_eq_some.mp he
    cases he
    exact ⟨h.goto h.absent h.keyless (by simp),id⟩
  | go i =>
    refine ⟨h.stepCall hn he,fun hr => ?_⟩
    rwa [(stepCall_frame he).1]
  | report keys =>
    obtain ⟨-,he⟩ := Option.ite_none_right_eq_some.mp he
    cases he
    exact ⟨⟨h.absent,h.keyless,h.adding⟩,fun _ => by simp⟩
  | lock =>
    simp only [SharedServer.step] at he
    split at he
    · obtain ⟨m,-,rfl⟩ := Option.map_eq_some_iff.mp he
      exact ⟨⟨h.absent,h.keyless,h.adding⟩,fun _ => by simp⟩
    · cases he
  | next =>
    simp only [SharedServer.step, stepBatch] at he
    split at he
    · cases he
      exact ⟨⟨h.absent,h.keyless,h.adding⟩,fun _ => by simp⟩
    · rename_i key keys hr
      split at he
      · cases he
        exact ⟨⟨h.absent,h.keyless,h.adding⟩,fun _ => by simp⟩
      · rename_i q hq
        cases he
        refine ⟨⟨h.absent,h.keyless,h.adding⟩,fun _ ks hks => ?_⟩
        cases hks
        exact h.keyless key hq
    · cases he
  | handled =>
    simp only [SharedServer.step] at he
    split at he
    · obtain ⟨-,he⟩ := Option.ite_none_right_eq_some.mp he
      cases he
      exact ⟨⟨h.absent,h.keyless,h.adding⟩,fun _ => by simp⟩
    · cases he

/-- Remove has taken the dispatcher out of both maps when it leaves. -/
theorem Invariant.gone (h : Invariant loop s) (hi : s.calls i = some (.remove p,.leaving)) : Gone p s := by
  obtain ⟨ha,hk⟩ : s.server.keyByDispatcher p = none ∧ ∀ k, s.server.dispatcherByKey k ≠ some p := h.knows i _ hi
  refine ⟨ha,hk,fun j key hj => ?_⟩
  have hji : j ≠ i := by
    rintro rfl
    rw [hi] at hj
    cases hj
  exact absurd (h.outside (held_pos hi (by decide)) hj hji) (by simp)

end SharedServer

variable {ι : Type*} [DecidableEq ι] {loop i : ι} {s t : SharedServer ι} {p : Ptr}
open SharedServer

/-- Remove is a barrier. When it leaves, the dispatcher is in neither map, and as long as no Add puts it in again the
loop does not come to it; and the loop is not in an event of it either unless the loop thread itself removed it. -/
theorem remove_is_a_barrier (hs : (sharedMachine loop).Reachable Machine.Free s)
    (hi : s.calls i = some (.remove p,.leaving)) (hr : (sharedMachine loop).Reaches (NoAdd p) s t) :
    (t.server.keyByDispatcher p = none ∧ ∀ key, t.server.dispatcherByKey key ≠ some p) ∧
      (∀ a u, NoAdd p t a → (sharedMachine loop).step t a = some u →
        (∃ keys, u.round = .handling keys p) → ∃ keys, t.round = .handling keys p) ∧
      (i ≠ loop → ∀ keys, t.round ≠ .handling keys p) := by
  have h := reachable_sharedInvariant hs
  have hout (hil : i ≠ loop) (keys : List Key) : s.round ≠ .handling keys p := by
    intro hround
    have hloop : 0 < s.held loop loop := by simp [held, hround, Round.held]
    exact hil (h.only (held_pos hi (by decide)) hloop)
  have hlast : Gone p t ∧ (i ≠ loop → ∀ keys, t.round ≠ .handling keys p) := by
    refine hr.rule (R := fun t => Gone p t ∧ (i ≠ loop → ∀ keys, t.round ≠ .handling keys p)) ⟨h.gone hi,hout⟩ ?_
    rintro u a v - ⟨hg,hu⟩ hn he
    obtain ⟨hv,hkeep⟩ := hg.step hn he
    exact ⟨hv,fun hil => hkeep (hu hil)⟩
  refine ⟨⟨hlast.1.absent,hlast.1.keyless⟩,fun a u hn he hu => ?_,hlast.2⟩
  by_contra hno
  obtain ⟨keys,hu⟩ := hu
  exact (hlast.1.step hn he).2 (fun ks hks => hno ⟨ks,hks⟩) keys hu

/-- The other thread removes a dispatcher whose event the loop thread has got but not come to. -/
theorem removed_before_batch : ∃ s t : SharedServer Bool, s.round = .reported [0] ∧
    s.calls true = some (.remove 5,.leaving) ∧ t.round = .batch [] ∧ t.server.keyByDispatcher 5 = none ∧
      ∀ keys, t.round ≠ .handling keys 5 := by
  have hrun : ((sharedMachine false).run Machine.Free .start [.call true (.add 5),.go true,.go true,.go true,.go true,
      .report [0],.call true (.remove 5),.go true,.go true,.go true]).any (fun s =>
        decide (s.round = .reported [0] ∧ s.calls true = some (.remove 5,.leaving)) &&
          ((sharedMachine false).run (NoAdd 5) s [.go true,.lock,.next]).any fun t =>
            decide (t.round = .batch [])) = true := by
    decide +kernel
  obtain ⟨s,hs,hw⟩ := Machine.exists_reachable_of_run rfl hrun
  obtain ⟨hw,hrun⟩ := (Bool.and_eq_true _ _).mp hw
  obtain ⟨hround,hcall⟩ := of_decide_eq_true hw
  obtain ⟨t,ht,hw⟩ := (Option.any_eq_true _ _).mp hrun
  obtain ⟨⟨ha,-⟩,-,hn⟩ := remove_is_a_barrier hs hcall (Machine.reaches_of_run ht)
  exact ⟨s,t,hround,hcall,of_decide_eq_true hw,ha,hn (by decide)⟩

end UServer.Net
