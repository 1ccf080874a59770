import UServer.Sigslot.Policies

/-! Destroyed objects: the states from which no run can come to one through a pointer that a signal or an object has. -/
namespace UServer.Sigslot
open Library

namespace World
variable {policy : Object → Policy} {w t u : World} {g h : ℕ}

theorem fault_signalDisconnect (w : World) (h g : ℕ) :
    (w.signalDisconnect h g).fault = (w.fault || (w.senders h).isNone) := by
  unfold signalDisconnect
  split
  · rename_i hl
    simp [hl]
  · rename_i l hl
    simp [hl, setSenders]

/-- A loop over the objects at the far ends that comes to a destroyed one. -/
theorem fault_disconnectEach (ds : List ℕ) (w : World) (g : ℕ) :
    (ds.foldl (fun w h => w.signalDisconnect h g) w).fault =
      (w.fault || ds.any fun h => (w.senders h).isNone) := by
  induction ds generalizing w with
  | nil => simp
  | cons d ds ih =>
    have halive (h : ℕ) : ((w.signalDisconnect d g).senders h).isNone = (w.senders h).isNone := by
      rw [← Option.not_isSome, ← Option.not_isSome, (signalDisconnect_spec w d g).alive]
    simp only [List.foldl_cons, ih, halive, fault_signalDisconnect, List.any_cons, Bool.or_assoc]

/-- What went wrong stays so. -/
theorem fault_step {a : Action} (he : w.exec a = some t) (hf : w.fault = true) : t.fault = true := by
  cases a with
  | emit g =>
    obtain ⟨r,-,rfl⟩ := Option.map_eq_some_iff.mp he
    exact hf
  | next =>
    simp only [exec, next] at he
    split at he
    · cases he
    · obtain ⟨r,-,rfl⟩ := Option.map_eq_some_iff.mp he
      split
      · exact hf
      · simp [call, hf]
  | _ => exact (quiet_exec he (by simp) (by simp)).fault hf

/-- A step that destroys only signals which do not fire, and leaves no connection behind. -/
def Careful (w : World) (a : Action) : Prop := w.Single a ∧ w.SparesFiring a

instance (w : World) (a : Action) : Decidable (w.Careful a) := inferInstanceAs (Decidable (_ ∧ _))

/-- The signals that fire are there. -/
def FiringAlive (w : World) : Prop := ∀ g ∈ w.firing, (w.signals g).isSome = true

theorem isSome_step {a : Action} (he : w.exec a = some t) (hs : (w.signals g).isSome = true)
    (hd : a ≠ .destroySignal g) : (t.signals g).isSome = true := by
  obtain ⟨s,hs⟩ := Option.isSome_iff_exists.mp hs
  by_cases hemit : a = .emit g
  · subst hemit
    obtain ⟨r,-,rfl⟩ := Option.map_eq_some_iff.mp he
    simp [setSignal]
  · obtain ⟨s',hs',-⟩ := signal_step he hemit hd hs
    exact Option.isSome_iff_exists.mpr ⟨s',hs'⟩

theorem FiringAlive.step {a : Action} (hw : w.FiringAlive) (he : w.exec a = some t) (hf : t.fault = false) :
    t.FiringAlive := by
  have hd (g : ℕ) (hg : g ∈ w.firing) : a ≠ .destroySignal g := by
    rintro rfl
    rw [fault_destroySignal he hg] at hf
    cases hf
  intro g hg
  rcases firing_step he with h | ⟨g',rfl,h⟩ | ⟨-,g',s,h,-⟩
  · rw [h] at hg
    exact isSome_step he (hw g hg) (hd g hg)
  · rw [h, List.mem_cons] at hg
    rcases hg with rfl | hg
    · obtain ⟨r,-,rfl⟩ := Option.map_eq_some_iff.mp he
      simp [setSignal]
    · exact isSome_step he (hw g hg) (hd g hg)
  · have hg' : g ∈ w.firing := h ▸ List.mem_cons_of_mem g' hg
    exact isSome_step he (hw g hg') (hd g hg')

/-- A state with the same connections, seen from both sides. -/
structure SameLinks (w t : World) : Prop where
  senders : t.senders = w.senders
  dests : ∀ g, t.dests g = w.dests g
  alive : ∀ g, (t.signals g).isSome = (w.signals g).isSome

theorem SameLinks.trans (h : w.SameLinks t) (h' : t.SameLinks u) : w.SameLinks u :=
  ⟨h'.senders.trans h.senders,fun g => (h'.dests g).trans (h.dests g),fun g => (h'.alive g).trans (h.alive g)⟩

theorem step_of_admits {a : Action} (ha : w.Admits policy a) (he : w.exec a = some t) :
    (machine policy).step w a = some t := (if_pos ha).trans he

theorem step_next (h : w.next = some t) : (machine policy).step w .next = some t :=
  step_of_admits (fun _ ho => absurd ho List.not_mem_nil) h

theorem careful_next (w : World) : w.Careful .next := ⟨trivial,fun _ _ => Action.noConfusion⟩

/-- The innermost emission comes to its end if its slots do nothing. -/
theorem exists_popped (n : ℕ) {fs : List ℕ} {s : Signal} (hf : w.firing = g :: fs) (hs : w.signals g = some s)
    (hn : s.pending.length = n) :
    ∃ t, (machine policy).Reaches Careful w t ∧ t.firing = fs ∧ w.SameLinks t := by
  induction n generalizing w s with
  | zero =>
    have hadv : s.advance = none :=
      s.advance_eq_none_iff.mpr (s.pending_eq_nil_iff.mp (List.length_eq_zero_iff.mp hn))
    have hnext : w.next = some { w with firing := fs } := by
      simp only [next, hf, hs, hadv, Option.map_some]
    exact ⟨_,.single ⟨.next,careful_next w,step_next hnext⟩,rfl,rfl,fun _ => rfl,fun _ => rfl⟩
  | succ n ih =>
    cases hadv : s.advance with
    | none =>
      rw [s.advance_eq_none_iff, ← s.pending_eq_nil_iff] at hadv
      rw [hadv] at hn
      cases hn
    | some p =>
      obtain ⟨c,s'⟩ := p
      obtain ⟨hp,rfl⟩ := Signal.advance_some hadv
      have hnext : w.next = some (w.call g (s.moveOn c) c) := by
        simp only [next, hf, hs, hadv, Option.map_some]
      have hsame : w.SameLinks (w.call g (s.moveOn c) c) := by
        refine ⟨rfl,fun g' => ?_,isSome_setSignal hs⟩
        change (w.setSignal g (some (s.moveOn c))).dests g' = w.dests g'
        rw [dests_setSignal]
        by_cases hg : g' = g
        · simp [hg, dests_of_signals hs]
        · simp [hg]
      rw [hp, List.length_cons, Nat.add_right_cancel_iff] at hn
      obtain ⟨t,hr,hft,hst⟩ := ih (w := w.call g (s.moveOn c) c) hf (by simp [call, setSignal]) hn
      exact ⟨t,.head ⟨.next,careful_next w,step_next hnext⟩ hr,hft,hsame.trans hst⟩

/-- All emissions come to their ends if the slots do nothing. -/
theorem exists_settled (fs : List ℕ) (hf : w.firing = fs) (ha : w.FiringAlive) :
    ∃ t, (machine policy).Reaches Careful w t ∧ t.firing = [] ∧ w.SameLinks t := by
  induction fs generalizing w with
  | nil => exact ⟨w,.refl,hf,rfl,fun _ => rfl,fun _ => rfl⟩
  | cons g fs ih =>
    obtain ⟨s,hs⟩ := Option.isSome_iff_exists.mp (ha g (hf ▸ List.mem_cons_self))
    obtain ⟨u,hru,hfu,hsu⟩ : ∃ u, (machine policy).Reaches Careful w u ∧ u.firing = fs ∧ w.SameLinks u :=
      exists_popped s.pending.length hf hs rfl
    have hau : u.FiringAlive := by
      intro g' hg'
      rw [hsu.alive]
      rw [hfu] at hg'
      exact ha g' (hf ▸ List.mem_cons_of_mem g hg')
    obtain ⟨t,hrt,hft,hst⟩ := ih hfu hau
    exact ⟨t,hru.trans hrt,hft,hsu.trans hst⟩

/-- A connection to a destroyed object that disconnect_all comes to. -/
theorem exists_fault_of_dead (hf : w.firing = []) (hap : w.Apart policy) (hd : h ∈ w.dests g)
    (hn : w.senders h = none) : ∃ t, (machine policy).Reaches Careful w t ∧ t.fault = true := by
  obtain ⟨s,hs⟩ := Option.isSome_iff_exists.mp (isSome_of_mem_dests hd)
  have hadmits : w.Admits policy (.signalDisconnectAll g) := by
    intro o ho
    obtain rfl := List.mem_singleton.mp ho
    refine ⟨fun g' hg' => absurd hg' (hf ▸ List.not_mem_nil),fun p hp => ?_⟩
    obtain ⟨h',hh',rfl⟩ := List.mem_map.mp hp
    exact ⟨fun hsh => (hap g h' hsh).1 hh',fun g' hg' => absurd hg' (hf ▸ List.not_mem_nil)⟩
  have he : w.signalDisconnectAll g =
      some ((s.dests.foldl (fun w h => w.signalDisconnect h g) w).setSignal g (some s.clear)) := by
    rw [signalDisconnectAll, hs, Option.map_some]
  refine ⟨_,.single ⟨.signalDisconnectAll g,⟨trivial,by simp [SparesFiring]⟩,step_of_admits hadmits he⟩,?_⟩
  change (s.dests.foldl (fun w h => w.signalDisconnect h g) w).fault = true
  rw [dests_of_signals hs] at hd
  rw [fault_disconnectEach, Bool.or_eq_true, List.any_eq_true]
  exact .inr ⟨h,hd,by rw [hn]; rfl⟩

/-- A connection that its object does not know of: where the object is still there, it is destroyed first, which
leaves the connection. -/
theorem exists_fault_of_unknown (hf : w.firing = []) (hap : w.Apart policy) (hs : w.Sound) (hd : h ∈ w.dests g)
    (hg : g ∉ w.sendersOf h) : ∃ t, (machine policy).Reaches Careful w t ∧ t.fault = true := by
  cases hl : w.senders h with
  | none => exact exists_fault_of_dead hf hap hd hl
  | some l =>
    obtain ⟨u,hu⟩ : ∃ u, w.exec (.destroySlots h) = some u := by simp [exec, destroySlots, slotsDisconnectAll, hl]
    have hadmits : w.Admits policy (.destroySlots h) := by
      intro o ho
      obtain rfl := List.mem_singleton.mp ho
      refine ⟨fun g' hg' => absurd hg' (hf ▸ List.not_mem_nil),fun p hp => ?_⟩
      obtain ⟨g',hg',rfl⟩ := List.mem_map.mp hp
      refine ⟨fun hsh => ?_,fun x hx => absurd hx (hf ▸ List.not_mem_nil)⟩
      exact (hap g' h hsh.symm).1 (hs g' h hg')
    have hstep := step_of_admits hadmits hu
    have hdu : h ∈ u.dests g := ((destroySlots_links hu).dests g h).mpr ⟨hd,fun hc => hg hc.1⟩
    have hnu : u.senders h = none := by
      obtain ⟨x,-,rfl⟩ := Option.map_eq_some_iff.mp hu
      simp [setSenders]
    have hfu : u.firing = [] := (quiet_exec hu (by simp) (by simp)).firing.trans hf
    obtain ⟨t,hrt,hft⟩ := exists_fault_of_dead hfu (hap.step hstep) hdu hnu
    exact ⟨t,.head ⟨.destroySlots h,⟨trivial,by simp [SparesFiring]⟩,hstep⟩ hrt,hft⟩

end World

open World
variable {policy : Object → Policy} {w : World}

theorem reachable_firingAlive {ok : World → Action → Prop} (hw : (machine policy).Reachable ok w) (hf : w.fault = false) :
    w.FiringAlive := by
  refine hw.rule (I := fun w => w.fault = false → w.FiringAlive) ?_ ?_ hf
  · rintro v rfl - g hg
    exact absurd hg List.not_mem_nil
  · intro v a t hv _ he hft
    have hfv : v.fault = false := by
      by_contra hn
      rw [fault_step (machine_step policy he).2 (by simpa using hn)] at hft
      cases hft
    exact (hv hfv).step (machine_step policy he).2 hft

/-- From a state in which nothing has gone wrong yet, no run comes to a destroyed object without a disconnect that
leaves connections behind or a signal that is destroyed while it fires, exactly if both ends of every connection agree. -/
theorem never_faults_iff_mutual (hw : (machine policy).Reachable Machine.Free w) (hf : w.fault = false) :
    (∀ t, (machine policy).Reaches Careful w t → t.fault = false) ↔ w.Mutual := by
  constructor
  · intro hsafe
    obtain ⟨v,hrv,hfv,hsame⟩ : ∃ v, (machine policy).Reaches Careful w v ∧ v.firing = [] ∧ w.SameLinks v :=
      exists_settled w.firing rfl (reachable_firingAlive hw hf)
    have hv : (machine policy).Reachable Machine.Free v := by
      obtain ⟨s,hs,hr⟩ := hw
      exact ⟨s,hs,hr.trans (Relation.ReflTransGen.mono (fun _ _ ⟨a,_,he⟩ => ⟨a,trivial,he⟩) _ _ hrv)⟩
    intro g h
    refine ⟨fun hd => ?_,reachable_sound hw g h⟩
    by_contra hg
    rw [← hsame.dests] at hd
    have hg' : g ∉ v.sendersOf h := by rwa [sendersOf, hsame.senders]
    obtain ⟨t,hrt,hft⟩ := exists_fault_of_unknown hfv (reachable_apart hv) (reachable_sound hv) hd hg'
    rw [hsafe t (hrv.trans hrt)] at hft
    cases hft
  · intro hm t hr
    have hi : t.Mutual ∧ t.fault = false := by
      refine hr.rule (R := fun t => t.Mutual ∧ t.fault = false) ⟨hm,hf⟩ ?_
      rintro u a v - ⟨hu,hfu⟩ ha he
      obtain ⟨hfault,hiff⟩ := hu.step (machine_step policy he).2
      exact ⟨hiff.mpr ha.1,(hfault ha.2).trans hfu⟩
    exact hi.2

theorem connectedTwice_faults : ∃ w, (machine fun _ => .singleThreaded).Reachable Machine.Free w ∧
    ¬ ∀ t, (machine fun _ => .singleThreaded).Reaches Careful w t → t.fault = false := by
  have hrun : ((machine fun _ => .singleThreaded).run Machine.Free .start connectedTwice).any
      (fun w => decide (w.fault = false ∧ 0 ∈ w.dests 0 ∧ 0 ∉ w.sendersOf 0)) = true := by
    decide +kernel
  obtain ⟨w,hw,hp⟩ := Machine.exists_reachable_of_run rfl hrun
  obtain ⟨hf,hd,hs⟩ := of_decide_eq_true hp
  exact ⟨w,hw,fun hsafe => hs (((never_faults_iff_mutual hw hf).mp hsafe 0 0).mp hd)⟩

end UServer.Sigslot
