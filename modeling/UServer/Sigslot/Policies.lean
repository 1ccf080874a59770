import UServer.Sigslot.Emission

/-! What the locking policies change: an emission under a mutex calls what it found, no more and no less, and one mutex
for everything lets nothing be connected. -/
namespace UServer.Sigslot
open Library

theorem shares_iff_global (policy : Object → Policy) (g h : ℕ) : Shares policy (.signal g) (.slots h) ↔
    policy (.signal g) = .multiThreadedGlobal ∧ policy (.slots h) = .multiThreadedGlobal := by
  unfold Shares
  cases policy (.signal g) <;> cases policy (.slots h) <;> simp [Policy.mutex]

theorem shares_self (policy : Object → Policy) (o : Object) : Shares policy o o ↔ policy o ≠ .singleThreaded := by
  unfold Shares
  cases policy o <;> simp [Policy.mutex]

theorem Shares.symm {policy : Object → Policy} {o p : Object} (h : Shares policy o p) : Shares policy p o :=
  ⟨h.2 ▸ h.1,h.2.symm⟩

namespace World
variable {policy : Object → Policy} {w t u : World} {g h : ℕ}

/-- Loops over other signals leave a signal alone. -/
theorem signals_foldl {f : World → ℕ → World} (hf : ∀ (w : World) (x : ℕ), x ≠ g → (f w x).signals g = w.signals g)
    (xs : List ℕ) (hx : g ∉ xs) (w : World) : (xs.foldl f w).signals g = w.signals g := by
  induction xs generalizing w with
  | nil => rfl
  | cons x xs ih =>
    rw [List.mem_cons, not_or] at hx
    exact (ih hx.2 (f w x)).trans (hf w x (Ne.symm hx.1))

theorem signals_slotDisconnect (w : World) {x : ℕ} (h : ℕ) (hx : x ≠ g) :
    (w.slotDisconnect x h).signals g = w.signals g := by
  unfold slotDisconnect
  split
  · rfl
  · simp [setSignal, hx.symm]

theorem signals_slotDuplicate (w : World) {x : ℕ} (o h : ℕ) (hx : x ≠ g) :
    (w.slotDuplicate x o h).signals g = w.signals g := by
  unfold slotDuplicate
  split
  · rfl
  · simp [setSignal, hx.symm]

theorem signals_signalDisconnectAll {x : ℕ} (he : w.signalDisconnectAll x = some t) (hx : x ≠ g) :
    t.signals g = w.signals g := by
  obtain ⟨s,-,rfl⟩ := Option.map_eq_some_iff.mp he
  simp [setSignal, hx.symm, (disconnectEach_spec s.dests w x).1]

theorem signals_slotsDisconnectAll (he : w.slotsDisconnectAll h = some t) (hg : g ∉ w.sendersOf h) :
    t.signals g = w.signals g := by
  obtain ⟨l,hl,rfl⟩ := Option.map_eq_some_iff.mp he
  rw [sendersOf_of_senders hl] at hg
  exact signals_foldl (fun w x hx => w.signals_slotDisconnect h hx) l hg _

/-- A signal that an action does not lock stays as it is unless the action goes on with an emission. -/
theorem signals_of_unlocked {a : Action} {s : Signal} (he : w.exec a = some t) (hs : w.signals g = some s)
    (hl : .signal g ∉ a.locked) (ho : .signal g ∉ w.others a) (hn : a ≠ .next) : t.signals g = some s := by
  rw [← hs]
  cases a with
  | newSignal g' =>
    rw [exec, newSignal, Option.ite_none_right_eq_some, Option.isNone_iff_eq_none] at he
    obtain ⟨hfree,he⟩ := he
    cases he
    have hg : g ≠ g' := by
      rintro rfl
      exact absurd hs (by simp [hfree])
    simp [setSignal, hg]
  | copySignal g' o =>
    obtain ⟨r,-,he⟩ := Option.bind_eq_some_iff.mp he
    rw [Option.ite_none_right_eq_some] at he
    cases he.2
    have hg : g ≠ g' := by simpa [Action.locked] using hl
    simp [setSignal, hg, (connectEach_spec r.dests w g').1]
  | destroySignal g' =>
    obtain ⟨u,hu,rfl⟩ := Option.map_eq_some_iff.mp he
    have hg : g ≠ g' := by simpa [Action.locked] using hl
    simp [setSignal, hg, signals_signalDisconnectAll hu hg.symm]
  | newSlots h =>
    rw [exec, newSlots, Option.ite_none_right_eq_some] at he
    cases he.2
    rfl
  | copySlots h o =>
    obtain ⟨l,hlist,he⟩ := Option.bind_eq_some_iff.mp he
    rw [Option.ite_none_right_eq_some] at he
    cases he.2
    have hg : g ∉ l := by simpa [others, sendersOf_of_senders hlist] using ho
    refine signals_foldl (fun w x hx => ?_) l hg _
    rw [(signalConnect_spec _ h x).signals, signals_slotDuplicate w o h hx]
  | destroySlots h =>
    obtain ⟨u,hu,rfl⟩ := Option.map_eq_some_iff.mp he
    change u.signals g = w.signals g
    exact signals_slotsDisconnectAll hu (by simpa [others] using ho)
  | connect g' h method =>
    obtain ⟨r,-,he⟩ := Option.bind_eq_some_iff.mp he
    rw [Option.ite_none_right_eq_some] at he
    cases he.2
    have hg : g ≠ g' := by simpa [Action.locked] using hl
    rw [(signalConnect_spec _ h g').signals]
    simp [setSignal, hg]
  | disconnect g' h =>
    obtain ⟨r,-,he⟩ := Option.bind_eq_some_iff.mp he
    rw [Option.ite_none_right_eq_some, Option.some.injEq] at he
    rw [← he.2]
    have hg : g ≠ g' := by simpa [Action.locked] using hl
    split
    · rfl
    · rw [(signalDisconnect_spec _ h g').signals]
      simp [setSignal, hg]
  | signalDisconnectAll g' =>
    have hg : g ≠ g' := by simpa [Action.locked] using hl
    exact signals_signalDisconnectAll he hg.symm
  | slotsDisconnectAll h => exact signals_slotsDisconnectAll he (by simpa [others] using ho)
  | emit g' =>
    have hg : g ≠ g' := by simpa [Action.locked] using hl
    obtain ⟨r,-,rfl⟩ := Option.map_eq_some_iff.mp he
    simp [setSignal, hg]
  | next => exact absurd rfl hn

/-- With a mutex, no action locks a signal that fires. -/
theorem Admits.unlocked {a : Action} (ha : w.Admits policy a) (hp : policy (.signal g) ≠ .singleThreaded)
    (hg : g ∈ w.firing) : .signal g ∉ a.locked ∧ .signal g ∉ w.others a := by
  have hself := (shares_self policy (.signal g)).mpr hp
  have hl : .signal g ∉ a.locked := fun h => (ha _ h).1 g hg hself
  refine ⟨hl,fun ho => ?_⟩
  have hne : a.locked ≠ [] := by
    cases a <;> simp_all [Action.locked, others]
  obtain ⟨o,hlock⟩ := List.exists_mem_of_ne_nil _ hne
  exact ((ha o hlock).2 _ ho).2 g hg hself

/-- Where a signal under a mutex is in its emission: what it has called and what it has still to call are the
connections that it found. -/
structure Locked (w t : World) (g : ℕ) (s s' : Signal) (cs : List Connection) : Prop where
  signal : t.signals g = some s'
  slots : s'.slots = s.slots
  split : s.slots = cs ++ s'.pending
  calls : t.callsOf g = w.callsOf g ++ cs
  ended : g ∉ t.firing → s'.current = none

theorem locked_step {a : Action} {v : World} {s s' : Signal} {cs : List Connection} (hl : w.Locked u g s s' cs)
    (hp : policy (.signal g) ≠ .singleThreaded) (hg : g ∈ u.firing) (he : (machine policy).step u a = some v) :
    ∃ s'' cs', w.Locked v g s s'' cs' := by
  obtain ⟨ha,he⟩ := machine_step policy he
  obtain ⟨hlock,hothers⟩ := ha.unlocked hp hg
  by_cases hn : a = .next
  · subst hn
    simp only [exec, next] at he
    split at he
    · cases he
    · rename_i g' rest hf
      obtain ⟨r,hr,rfl⟩ := Option.map_eq_some_iff.mp he
      split
      · rename_i hadv
        refine ⟨s',cs,hl.signal,hl.slots,hl.split,hl.calls,fun hnot => ?_⟩
        rw [hf, List.mem_cons] at hg
        rcases hg with rfl | hg
        · obtain rfl := Option.some.inj (hl.signal.symm.trans hr)
          exact s'.advance_eq_none_iff.mp hadv
        · exact absurd hg hnot
      · rename_i c r' hadv
        by_cases hgg : g = g'
        · subst hgg
          obtain rfl := Option.some.inj (hl.signal.symm.trans hr)
          obtain ⟨hpend,rfl⟩ := Signal.advance_some hadv
          refine ⟨s'.moveOn c,cs ++ [c],by simp [call, setSignal],hl.slots,?_,?_,fun hnot => absurd hg hnot⟩
          · rw [hl.split, hpend, List.append_assoc, List.singleton_append]
          · rw [callsOf_call, hl.calls, List.append_assoc]
        · refine ⟨s',cs,by simp [call, setSignal, hgg, hl.signal],hl.slots,hl.split,?_,fun hnot => absurd hg hnot⟩
          rw [callsOf_call_of_ne _ _ hgg, hl.calls]
  · have hsig := signals_of_unlocked he hl.signal hlock hothers hn
    have hemit : a ≠ .emit g := by
      rintro rfl
      exact hlock List.mem_cons_self
    have hd : a ≠ .destroySignal g := by
      rintro rfl
      exact hlock List.mem_cons_self
    have hf : g ∈ v.firing := by
      rcases firing_step he with h | ⟨g',-,h⟩ | ⟨h,-⟩
      · rwa [h]
      · exact h ▸ List.mem_cons_of_mem g' hg
      · exact absurd h hn
    have hcalls : v.callsOf g = u.callsOf g := by
      obtain ⟨r,hr,⟨-,hc⟩ | ⟨h,-⟩⟩ := signal_step he hemit hd hl.signal
      · exact hc
      · exact absurd h hn
    exact ⟨s',cs,hsig,hl.slots,hl.split,hcalls.trans hl.calls,fun hnot => absurd hf hnot⟩

/-- No link between a signal and an object that share a mutex is made. -/
def Apart (policy : Object → Policy) (w : World) : Prop :=
  ∀ g h, Shares policy (.signal g) (.slots h) → h ∉ w.dests g ∧ ∀ c ∈ w.callsOf g, c.dest ≠ h

theorem Apart.dests_step {a : Action} (hw : w.Apart policy) (ha : w.Admits policy a) (he : w.exec a = some t)
    (hgh : Shares policy (.signal g) (.slots h)) : h ∉ t.dests g := by
  have hd := (hw g h hgh).1
  cases a with
  | newSignal g' => rwa [(newSignal_links he).dests]
  | copySignal g' o =>
    rw [(copySignal_links he).dests]
    split
    · rename_i hg
      subst hg
      intro hm
      exact ((ha _ List.mem_cons_self).2 _ (List.mem_map_of_mem hm)).1 hgh
    · exact hd
  | destroySignal g' =>
    rw [(destroySignal_links he).dests]
    exact fun hm => hd hm.2
  | newSlots h' => rwa [(newSlots_links he).dests]
  | copySlots h' o =>
    rw [(copySlots_links he).dests]
    rintro (hm | ⟨hm,rfl,-⟩)
    · exact hd hm
    · exact ((ha _ List.mem_cons_self).2 _ (List.mem_map_of_mem hm)).1 hgh.symm
  | destroySlots h' =>
    rw [(destroySlots_links he).dests]
    exact fun hm => hd hm.1
  | connect g' h' method =>
    rw [(connect_links he).dests]
    rintro (hm | ⟨rfl,rfl⟩)
    · exact hd hm
    · exact ((ha _ List.mem_cons_self).2 _ List.mem_cons_self).1 hgh
  | disconnect g' h' =>
    rw [(disconnect_links he).dests]
    split
    · rename_i hg
      rw [← hg.1, ← hg.2]
      exact fun hm => hd (List.mem_of_mem_erase hm)
    · exact hd
  | signalDisconnectAll g' =>
    rw [(signalDisconnectAll_links he).dests]
    exact fun hm => hd hm.2
  | slotsDisconnectAll h' =>
    rw [(slotsDisconnectAll_links he).dests]
    exact fun hm => hd hm.1
  | emit g' => rwa [(emit_links he).dests]
  | next => rwa [(next_links he).dests]

/-- A call is of a connection that the signal has. -/
theorem calls_step {a : Action} (he : w.exec a = some t) :
    t.calls = w.calls ∨ ∃ g c, t.calls = w.calls ++ [(g,c)] ∧ c.dest ∈ w.dests g := by
  cases a with
  | emit g =>
    obtain ⟨r,-,rfl⟩ := Option.map_eq_some_iff.mp he
    exact .inl rfl
  | next =>
    simp only [exec, next] at he
    split at he
    · cases he
    · rename_i g rest hf
      obtain ⟨r,hr,rfl⟩ := Option.map_eq_some_iff.mp he
      split
      · exact .inl rfl
      · rename_i c r' hadv
        have hc : c ∈ r.slots := Signal.mem_slots_of_pending ((Signal.advance_some hadv).1 ▸ List.mem_cons_self)
        exact .inr ⟨g,c,rfl,dests_of_signals hr ▸ List.mem_map_of_mem hc⟩
  | _ => exact .inl (quiet_exec he (by simp) (by simp)).calls

theorem Apart.step {a : Action} (hw : w.Apart policy) (he : (machine policy).step w a = some t) : t.Apart policy := by
  obtain ⟨ha,he⟩ := machine_step policy he
  intro g h hgh
  obtain ⟨hd,hc⟩ := hw g h hgh
  refine ⟨hw.dests_step ha he hgh,fun c hm => ?_⟩
  rcases calls_step he with hcalls | ⟨g',d,hcalls,hmem⟩
  · rw [callsOf, hcalls] at hm
    exact hc c hm
  · by_cases hg : g' = g
    · subst hg
      have happ : t.callsOf g' = w.callsOf g' ++ [d] := by simp [callsOf, hcalls]
      rw [happ, List.mem_append, List.mem_singleton] at hm
      rcases hm with hm | rfl
      · exact hc c hm
      · rintro rfl
        exact hd hmem
    · have hsame : t.callsOf g = w.callsOf g := by simp [callsOf, hcalls, hg]
      exact hc c (hsame ▸ hm)

end World

open World
variable {policy : Object → Policy} {w u t : World} {g h : ℕ}

/-- An action that locks an object and one at the far end with the same mutex never comes back. -/
theorem step_eq_none {a : Action} {o p : Object} (ho : o ∈ a.locked) (hp : p ∈ w.others a) (hs : Shares policy o p) :
    (machine policy).step w a = none :=
  if_neg fun ha => ((ha o ho).2 p hp).1 hs

theorem reachable_apart {ok : World → Action → Prop} (hw : (machine policy).Reachable ok w) : w.Apart policy := by
  refine hw.rule ?_ fun v a t hv _ he => hv.step he
  rintro v rfl g h -
  exact ⟨List.not_mem_nil,fun c hc => absurd hc List.not_mem_nil⟩

/-- An emission of a signal with a mutex calls, while it lasts, only what it found, in order, and by its end all of it;
its list stays as it was found. -/
theorem locked_emission {s : Signal} (hp : policy (.signal g) ≠ .singleThreaded) (hs : w.signals g = some s)
    (he : (machine policy).step w (.emit g) = some u) (hr : (machine policy).Reaches (fun v _ => g ∈ v.firing) u t) :
    ∃ cs rest, s.slots = cs ++ rest ∧ t.callsOf g = w.callsOf g ++ cs ∧
      (∃ s', t.signals g = some s' ∧ s'.slots = s.slots) ∧ (g ∉ t.firing → rest = []) := by
  obtain ⟨hu,hf,hc⟩ := emit_eq hs he
  have hstart : w.Locked u g s s.begin [] :=
    ⟨hu,rfl,s.pending_begin.symm,by rw [hc, List.append_nil],fun hn => absurd (hf ▸ List.mem_cons_self) hn⟩
  have hlast : ∃ s' cs, w.Locked t g s s' cs := by
    refine hr.rule (R := fun t => ∃ s' cs, w.Locked t g s s' cs) ⟨_,_,hstart⟩ ?_
    rintro v a v' - ⟨s',cs,hl⟩ hg hstep
    exact locked_step hl hp hg hstep
  obtain ⟨s',cs,hl⟩ := hlast
  exact ⟨cs,s'.pending,hl.split,hl.calls,⟨s',hl.signal,hl.slots⟩,fun hn => s'.pending_eq_nil_iff.mpr (hl.ended hn)⟩

/-- Under a mutex, the second of two slots left to call. -/
theorem twoSlots_locked : ∃ (w t : World) (s : Signal), w.signals 0 = some s ∧ t.callsOf 0 ≠ [] ∧ 0 ∈ t.firing ∧
    ∃ cs rest, s.slots = cs ++ rest ∧ t.callsOf 0 = w.callsOf 0 ++ cs := by
  have hrun : ((machine fun _ => .multiThreadedLocal).run Machine.Free .start twoSlots).any (fun w =>
      (w.signals 0).isSome && ((machine fun _ => .multiThreadedLocal).step w (.emit 0)).any fun u =>
        ((machine fun _ => .multiThreadedLocal).run (fun v _ => 0 ∈ v.firing) u [.next]).any fun t =>
          decide (t.callsOf 0 ≠ [] ∧ 0 ∈ t.firing)) = true := by
    decide +kernel
  obtain ⟨w,-,hw⟩ := (Option.any_eq_true _ _).mp hrun
  obtain ⟨hs,hw⟩ := (Bool.and_eq_true _ _).mp hw
  obtain ⟨s,hs⟩ := Option.isSome_iff_exists.mp hs
  obtain ⟨u,hu,hw⟩ := (Option.any_eq_true _ _).mp hw
  obtain ⟨t,ht,hw⟩ := (Option.any_eq_true _ _).mp hw
  obtain ⟨hc,hf⟩ := of_decide_eq_true hw
  obtain ⟨cs,rest,hsplit,hcalls,-⟩ := locked_emission (by decide) hs hu (Machine.reaches_of_run ht)
  exact ⟨w,t,s,hs,hc,hf,cs,rest,hsplit,hcalls⟩

/-- With multi_threaded_global on both sides, in no run is the object connected to the signal, and no call to it is made:
connect locks the one mutex twice and never comes back, and neither does a copy that would connect the two. -/
theorem never_connected {w : World} (hw : (machine policy).Reachable Machine.Free w)
    (hg : policy (.signal g) = .multiThreadedGlobal) (hh : policy (.slots h) = .multiThreadedGlobal) :
    (h ∉ w.dests g ∧ ∀ c ∈ w.callsOf g, c.dest ≠ h) ∧
      (∀ method, (machine policy).step w (.connect g h method) = none) ∧
        (∀ o, h ∈ w.dests o → (machine policy).step w (.copySignal g o) = none) ∧
          ∀ o, g ∈ w.sendersOf o → (machine policy).step w (.copySlots h o) = none := by
  have hgh : Shares policy (.signal g) (.slots h) := (shares_iff_global policy g h).mpr ⟨hg,hh⟩
  refine ⟨reachable_apart hw g h hgh,fun method => ?_,fun o ho => ?_,fun o ho => ?_⟩
  · exact step_eq_none (o := .signal g) (p := .slots h) List.mem_cons_self List.mem_cons_self hgh
  · exact step_eq_none List.mem_cons_self (List.mem_map_of_mem ho) hgh
  · exact step_eq_none List.mem_cons_self (List.mem_map_of_mem ho) hgh.symm

theorem newPair_not_connected : ∃ w, (machine fun _ => .multiThreadedGlobal).Reachable Machine.Free w ∧
    (w.signals 0).isSome = true ∧ (w.senders 0).isSome = true ∧ 0 ∉ w.dests 0 := by
  have hrun : ((machine fun _ => .multiThreadedGlobal).run Machine.Free .start [.newSignal 0,.newSlots 0]).any
      (fun w => decide ((w.signals 0).isSome = true ∧ (w.senders 0).isSome = true)) = true := by
    decide +kernel
  obtain ⟨w,hw,hp⟩ := Machine.exists_reachable_of_run rfl hrun
  obtain ⟨hg,hh⟩ := of_decide_eq_true hp
  exact ⟨w,hw,hg,hh,(never_connected hw rfl rfl).1.1⟩

end UServer.Sigslot
